/-
  Reading damaged text.

  A reading that cannot go on is repaired in three ways: a token is supplied that
  completes a phrase, what was read since an earlier place is left out together with
  the tokens after it, or one more token is left out.  Several repaired readings
  (`Reading`) are pursued side by side; each has a cost, and one that is clearly dearer
  than another is given up.

  * `Charge` holds what each kind of repair costs.
  * `compare` orders two readings by cost and by how far they have got.
  * `Readings.run` gives the tree of the cheapest reading.  A sound text has one
    reading, without repairs.
-/
import UberPackage.TypeScript.Chart

namespace UberPackage.TypeScript

/-! ## Costs -/

namespace Charge

/-- Leaving out a stretch of text. -/
def recovery : Nat := 500
/-- Supplying a token. -/
def supplied : Nat := 110
/-- Each node of a stretch left out. -/
def node : Nat := 100
/-- Each line break in it. -/
def line : Nat := 30
/-- A reading is given up when its excess cost, times the progress of the other, exceeds this. -/
def tolerance : Nat := 1800
/-- The number of readings pursued side by side. -/
def readings : Nat := 6
/-- How far back a reading looks for a place to go on from. -/
def depth : Nat := 16

end Charge

/-- A repair in a reading. -/
structure Blemish where
  /-- The column that it made. -/
  column : Nat
  cost : Nat
  /-- The stretch left out, if text was left out. -/
  node : Option Node
deriving Inhabited

/-- The cost of all repairs. -/
def Blemish.total (bs : List Blemish) : Nat := bs.foldl (fun n b => n + b.cost) 0

/-- What stands at the place where a reading stopped. -/
inductive Lookahead where
  | endOfText
  /-- Characters that begin no token. -/
  | garbage (start stop : Nat)
  | comment (start stop : Nat)
  | token (number start stop : Nat)
deriving Inhabited

namespace Lookahead

def stop (size : Nat) : Lookahead → Nat
  | endOfText => size
  | garbage _ e | comment _ e | token _ _ e => e

end Lookahead

/-- The next token at a place where the grammar gives no guidance.  Before a repair has begun
(`fresh`), every word counts as a name. -/
def Source.lookahead (s : Source) (t : Table) (fresh : Bool) (i : Nat) : Lookahead :=
  let j := s.blankEnd i
  if j ≥ s.size then .endOfText
  else
    match s.commentEnd? j with
    | some e => .comment j e
    | none =>
      let plain := fun (i : Nat) => (s.lexemes t i).filter fun (n, _) =>
        match t.tokens.getD n .endOfText with
        | .regex | .closeAngle => false
        | .word _ => !fresh
        | .mark m => m != "$\x7b"
        | _ => true
      let longest := (plain j).foldl (fun (best : Option (Nat × Nat)) (n, e) =>
        match best with
        | none => some (n, e)
        | some (_, e') => if e > e' then some (n, e) else best) none
      match longest with
      | some (n, e) => .token n j e
      | none =>
        .garbage j (s.skipWhile (fun _ => true) j |> fun last =>
          ((List.range (last - j)).find? fun k =>
            k > 0 && ((plain (j + k)).length > 0 ||
              ((s.chars[j + k]?.map isBlank).getD false))).elim last (j + ·))

/-! ## Readings -/

/-- Items that a column will be closed over. -/
structure Pending where
  position : Nat
  items : Array Item
  resumes : Option Nat := none
  supplied : Bool := false
deriving Inhabited

/-- An earlier place in a reading from which it could go on. -/
structure Place where
  depth : Nat
  column : Nat
  items : Array Item
  position : Nat
  /-- The nodes read since. -/
  nodes : List Node
deriving Inhabited

/-- Leaving out text. -/
structure Skipping where
  places : List Place
  position : Nat
  /-- The tokens left out, last first. -/
  skipped : List Node
deriving Inhabited

inductive Mode where
  | reading
  /-- The reading cannot go on. -/
  | stuck (position : Nat) (ahead : Lookahead)
  | skipping (s : Skipping)
deriving Inhabited

/-- One way to read the text. -/
structure Reading where
  columns : Array Column
  /-- What was read last, by increasing end. -/
  pending : List Pending
  mode : Mode := .reading
  /-- Repairs, latest first. -/
  blemishes : List Blemish := []
  comments : List (Nat × Nat) := []
  /-- The number of nodes read when it was last stuck. -/
  nodesBefore : Nat := 0
deriving Inhabited

/-- Bytes and line breaks between two places. -/
def Source.stretch (s : Source) (i j : Nat) : Nat :=
  (s.offset j - s.offset i) + Charge.line * (s.line j - s.line i)

/-- The cost of leaving out nodes. -/
def stretchCost (s : Source) (nodes : List Node) : Nat :=
  match nodes, nodes.getLast? with
  | first :: _, some last =>
    Charge.recovery + s.stretch first.start last.stop +
      Charge.node * (nodes.filter fun n => n.kind != .comment && n.kind != .error).length
  | _, _ => Charge.recovery

namespace Reading

def position (r : Reading) : Nat :=
  match r.mode with
  | .reading => (r.pending.head?.map (·.position)).getD 0
  | .stuck p _ => p
  | .skipping k => k.position

/-- The cost of the repairs. -/
def cost (s : Source) (r : Reading) : Nat :=
  let blemishes := Blemish.total r.blemishes
  match r.mode with
  | .reading => blemishes
  | .stuck _ _ => blemishes + Charge.recovery
  | .skipping k => blemishes + stretchCost s k.skipped.reverse

/-- The number of nodes read up to an item. -/
def nodesUpTo (t : Table) (columns : Array Column) : Nat → Item → Nat
  | 0, _ => 0
  | n + 1, i =>
    let own := Node.sizeAll (i.pieces.flatMap (·.nodes))
    let parents : Array Item :=
      match columns[i.origin]? with
      | some c => c.waiting.getD (i.phrase t) #[]
      | none => #[]
    match (parents.find? (·.dot > 0)).or parents[0]? with
    | some p => own + nodesUpTo t columns n p
    | none => own

/-- The number of nodes read. -/
def nodes (t : Table) (r : Reading) : Nat :=
  let item : Option Item :=
    match r.pending with
    | p :: _ => p.items[0]?
    | [] => (r.columns.back?).bind fun c => (c.items.find? (·.dot > 0)).or c.items[0]?
  let left := Node.sizeAll (r.blemishes.filterMap (·.node))
  let skipped := match r.mode with
    | .skipping k => if k.skipped.isEmpty then 0 else Node.sizeAll k.skipped + 1
    | _ => 0
  (item.map (nodesUpTo t r.columns 1000)).getD 0 + left + skipped

/-- Progress since the reading was last stuck. -/
def progress (t : Table) (r : Reading) : Nat := r.nodes t - r.nodesBefore

end Reading

/-! ## Comparing readings -/

/-- What counts in a comparison. -/
structure Standing where
  cost : Nat
  progress : Nat
  stuck : Bool

inductive Verdict where
  | takeLeft | preferLeft | none | preferRight | takeRight
deriving DecidableEq

/-- The reading's standing. -/
def Reading.standing (t : Table) (s : Source) (r : Reading) : Standing :=
  match r.mode with
  | .reading => ⟨r.cost s, r.progress t, false⟩
  | .stuck _ _ => ⟨r.cost s + Charge.node, r.progress t, true⟩
  | .skipping _ => ⟨r.cost s, r.progress t, true⟩

/-- Which of two readings is better, and whether the other is to be given up. -/
def Standing.compare (a b : Standing) : Verdict :=
  if !a.stuck && b.stuck then
    if a.cost < b.cost then .takeLeft else .preferLeft
  else if a.stuck && !b.stuck then
    if b.cost < a.cost then .takeRight else .preferRight
  else if a.cost < b.cost then
    if (b.cost - a.cost) * (1 + a.progress) > Charge.tolerance then .takeLeft else .preferLeft
  else if b.cost < a.cost then
    if (a.cost - b.cost) * (1 + b.progress) > Charge.tolerance then .takeRight else .preferRight
  else .none

/-- Two readings would go on alike. -/
def Reading.alike (s : Source) (a b : Reading) : Bool :=
  match a.mode, b.mode with
  | .reading, .reading =>
    a.cost s == b.cost s && a.pending.length == b.pending.length &&
      (a.pending.zip b.pending).all fun (p, q) =>
        p.position == q.position &&
          p.items.map (fun i => (i.production, i.dot)) == q.items.map fun i => (i.production, i.dot)
  | _, _ => false

/-! ## One token further -/

/-- What became of a reading. -/
inductive Advanced where
  | onward (r : Reading)
  | finished (r : Reading) (root : Node)

/-- Adds items that end at a place. -/
def addPending (pending : List Pending) (position : Nat) (items : Array Item) : List Pending :=
  match pending with
  | [] => [{ position, items }]
  | p :: rest =>
    if position < p.position then { position, items } :: p :: rest
    else if position == p.position then { p with items := p.items ++ items } :: rest
    else p :: addPending rest position items

/-- The tree of a whole text that has been read. -/
def rootOf (i : Item) (size : Nat) : Node :=
  Node.mk { kind := .phrase .program, start := 0, stop := size }
    (i.pieces.reverse.flatMap (·.nodes))

/-- Reads one token. -/
def Reading.advance (t : Table) (s : Source) (r : Reading) : Advanced :=
  match r.mode, r.pending with
  | .reading, p :: rest =>
    let ahead := s.ahead t p.position
    let column := Column.close t r.columns (some (ahead.tokens t)) p.position p.items
    let column := { column with resumes := p.resumes, supplied := p.supplied }
    let index := r.columns.size
    let columns := r.columns.push column
    let fin := if ahead.start ≥ s.size then finished? t column.items else none
    match fin with
    | some i =>
      .finished { r with columns, pending := [], comments := r.comments ++ ahead.comments }
        (rootOf i s.size)
    | none =>
      let read := (scan t s ahead index column).filter fun x => !x.items.isEmpty
      let pending := read.foldl (fun acc x => addPending acc x.stop x.items) rest
      let latest := (read.map (·.start)).foldl max 0
      let comments := if read.isEmpty && !pending.isEmpty then r.comments
        else r.comments ++ ahead.comments.filter fun (_, e) => read.isEmpty || e ≤ latest
      if pending.isEmpty then
        let here := ahead.stops.getLast?.getD p.position
        .onward { r with columns, pending := [], comments,
                         mode := .stuck here (s.lookahead t true here) }
      else .onward { r with columns, pending, comments }
  | _, _ => .onward r

/-! ## Earlier places -/

/-- The items of a column that have read the same part last. -/
def sameState (t : Table) (c : Column) (i : Item) : Array Item :=
  c.items.filter fun j =>
    j.dot > 0 && j.last? t == i.last? t &&
      (j.pieces.head?.map (·.before)) == (i.pieces.head?.map (·.before))

/-- The items of a column that led to the prediction of a phrase. -/
def predictors (t : Table) (c : Column) : Nat → Nat → List Nat → List Item
  | 0, _, _ => []
  | n + 1, phrase, seen =>
    let waiting := (c.waiting.getD phrase #[]).toList
    let direct := waiting.filter (·.dot > 0)
    let through := (waiting.filter (·.dot == 0)).map (·.phrase t) |>.eraseDups
    let through := through.filter (!seen.contains ·)
    direct ++ through.flatMap fun q => predictors t c n q (phrase :: seen ++ through)

/-- The places one part further back. -/
def Place.back (t : Table) (r : Reading) (p : Place) : List Place :=
  match r.columns[p.column]? with
  | none => []
  | some c =>
    match c.resumes with
    | some b =>
      let left := (r.blemishes.filter (·.column == p.column)).filterMap (·.node)
      [{ p with column := b, position := (r.columns[b]?.map (·.position)).getD 0,
                nodes := left ++ p.nodes }]
    | none =>
      let step := fun (i : Item) =>
        match i.pieces with
        | [] => []
        | piece :: older =>
          match r.columns[piece.before]? with
          | none => []
          | some d =>
            let place := fun (items : Array Item) =>
              ({ depth := p.depth + 1, column := piece.before, items, position := d.position,
                 nodes := piece.nodes ++ p.nodes } : Place)
            match older with
            | last :: _ =>
              let previous : Item := { i with dot := i.dot - 1, pieces := last :: older.drop 1 }
              [place (sameState t d previous)]
            | [] =>
              let starts := predictors t d 20 (i.phrase t) []
              if piece.before == 0 then [place (startItems t)]
              else (starts.map (sameState t d)).map place
      p.items.toList.flatMap step

/-- What tells places apart. -/
def Place.key (p : Place) : Nat × List (Nat × Nat × Nat) :=
  (p.column, p.items.toList.map Item.key)

/-- All earlier places, nearest first. -/
def placesFrom (t : Table) (r : Reading) : Nat → List Place → List Place → List Place
  | 0, _, found => found.reverse
  | n + 1, frontier, found =>
    let next := frontier.foldl (fun (acc : List Place × List Place) p =>
      if p.depth > Charge.depth || p.items.isEmpty || acc.2.any (fun q => q.key == p.key) then acc
      else (acc.1 ++ p.back t r, p :: acc.2)) ([], found)
    if next.1.isEmpty then next.2.reverse else placesFrom t r n next.1 next.2

/-- The places a stuck reading could go on from. -/
def Reading.places (t : Table) (r : Reading) (position : Nat) : List Place :=
  match r.columns.back? with
  | none => []
  | some c =>
    let column := r.columns.size - 1
    let tops :=
      if column == 0 then [startItems t]
      else (c.items.toList.filter (·.dot > 0)).map (sameState t c)
    let frontier :=
      tops.map fun items => ({ depth := 1, column, items, position, nodes := [] } : Place)
    placesFrom t r 200 frontier []

/-! ## Repairs -/

/-- The token can be read in a state, possibly after phrases have been completed.  A slash can
also begin a regular expression. -/
def viable (t : Table) (columns : Array Column) (items : Array Item) : Lookahead → Bool
  | .token n _ _ =>
    let items := completed t columns items
    accepts t items n || (n == t.number (.mark "/") && accepts t items (t.number .regex))
  | .endOfText => (finished? t (completed t columns items)).isSome
  | .comment _ _ => true
  | .garbage _ _ => false

/-- The first token that completes a phrase after which the text can go on, as items beyond it. -/
def Reading.supply? (t : Table) (r : Reading) (position : Nat) (ahead : Lookahead) :
    Option (Array Item) :=
  match r.columns.back? with
  | none => none
  | some c =>
    let below := r.columns.pop
    let kernel := if below.isEmpty then startItems t else c.items.filter (·.dot > 0)
    let full := Column.close t below none c.position kernel
    let columns := below.push { full with resumes := c.resumes }
    let index := r.columns.size - 1
    (List.range t.tokens.size).findSome? fun n =>
      match t.tokens.getD n .endOfText with
      | .endOfText | .autoSemicolon | .signatureSemicolon => none
      | tok =>
        let piece := fun (role : Option Role) =>
          ({ before := index, start := position, stop := position
             nodes := [.mk { kind := .token tok, start := position, stop := position, role,
                             missing := true } []] } : Piece)
        let items := shift t full.items n piece
        let done := items.filter fun i => (i.next? t).isNone
        if !done.isEmpty && viable t columns done ahead then some items else none

/-- The reading with a token supplied.  The column is closed anew, since what was not expected
there may be needed. -/
def Reading.withSupplied (t : Table) (r : Reading) (position : Nat) (items : Array Item) :
    Reading :=
  let columns :=
    match r.columns.back? with
    | none => r.columns
    | some c =>
      let below := r.columns.pop
      let kernel := if below.isEmpty then startItems t else c.items.filter (·.dot > 0)
      below.push { Column.close t below none c.position kernel with
        resumes := c.resumes, supplied := c.supplied }
  { r with
    columns
    mode := .reading
    pending := [{ position, items, supplied := true }]
    blemishes := ⟨columns.size, Charge.supplied + Charge.recovery, none⟩ :: r.blemishes }

/-- The reading resumed at an earlier place, with all since then left out. -/
def Reading.resume (s : Source) (r : Reading) (k : Skipping) (p : Place) : Reading :=
  let c := r.columns[p.column]?.getD default
  -- a stretch left out directly before is joined with this one
  let before := match c.resumes with
    | some _ => (r.blemishes.find? fun (b : Blemish) => b.column == p.column).bind Blemish.node
    | none => none
  let column := match before, c.resumes with
    | some _, some b => b
    | _, _ => p.column
  let children := (before.map Node.children).getD [] ++ p.nodes ++ k.skipped.reverse
  let start := (children.head?.map Node.start).getD k.position
  let node := Node.mk { kind := .error, start, stop := k.position } children
  let dropped := r.blemishes.filter (·.column > column)
  let inner := dropped.filter fun b => !(before.isSome && b.column == p.column)
  { r with
    columns := r.columns.take (column + 1)
    mode := .reading
    pending := [{ position := k.position, items := p.items, resumes := some column }]
    blemishes := ⟨column + 1, stretchCost s children + Blemish.total inner, some node⟩ ::
      r.blemishes.filter (·.column ≤ column) }

/-- All nodes of a reading on its top level, for a text that cannot be saved. -/
def Reading.topNodes (t : Table) (r : Reading) : List Node :=
  let rec up (n : Nat) (i : Item) (acc : List Node) : List Node :=
    match n with
    | 0 => acc
    | n + 1 =>
      let acc := i.pieces.reverse.flatMap (·.nodes) ++ acc
      let parents : Array Item :=
        match r.columns[i.origin]? with
        | some c => c.waiting.getD (i.phrase t) #[]
        | none => #[]
      match (parents.find? (·.dot > 0)).or parents[0]? with
      | some p => up n p acc
      | none => acc
  match r.columns.back? with
  | none => []
  | some c =>
    match c.items.find? (·.dot > 0) with
    | some i => up 1000 i []
    | none => []

/-! ## Readings side by side -/

structure Readings where
  table : Table
  source : Source
  active : Array Reading
  /-- The cheapest tree so far, with its repairs and comments. -/
  finished : Option (Nat × Node × List Node × List (Nat × Nat)) := none
  finishes : Nat := 0

namespace Readings

/-- Offers a finished tree. -/
def offer (x : Readings) (cost : Nat) (root : Node) (left : List Node)
    (comments : List (Nat × Nat)) : Readings :=
  let x := { x with finishes := x.finishes + 1 }
  match x.finished with
  | some (best, _) =>
    if cost < best then { x with finished := some (cost, root, left, comments) } else x
  | none => { x with finished := some (cost, root, left, comments) }

/-- Another reading, or a finished tree, is clearly better than reading `index` would be. -/
def betterExists (x : Readings) (index : Nat) (stuck : Bool) (cost : Nat) : Bool :=
  let dearer := match x.finished with
    | some (best, _) => best ≤ cost
    | none => false
  let r := x.active[index]?.getD default
  let own : Standing := ⟨cost, r.progress x.table, stuck⟩
  dearer || (x.active.toList.zipIdx.any fun (o, i) =>
    i != index &&
    (match o.mode with | .stuck _ _ => false | _ => true) &&
    o.position ≥ r.position &&
    own.compare (o.standing x.table x.source) == .takeRight)

/-- Gives a reading up. -/
def drop (x : Readings) (index : Nat) : Readings :=
  { x with active := (x.active.toList.eraseIdx index).toArray }

/-- Goes on with a reading that leaves out text, at the token ahead.  The flag tells whether the
reading is still pursued. -/
def recover (x : Readings) (index : Nat) (ahead : Lookahead) : Readings × Bool := Id.run do
  let r := x.active[index]?.getD default
  match r.mode with
  | .skipping k =>
    let t := x.table
    let s := x.source
    let cost := r.cost s
    let mut out := x
    let mut resumed := false
    for p in k.places do
      if p.position == k.position then continue
      let merges := x.active.toList.any fun o =>
        o.position == k.position &&
          (match o.mode, o.pending with
           | .reading, [q] => q.items.map Item.key == p.items.map Item.key
           | _, _ => false)
      if merges then continue
      if x.betterExists index false (cost + s.stretch p.position k.position) then break
      if viable t r.columns p.items ahead then
        out := { out with active := out.active.push (r.resume s k p) }
        resumed := true
        break
    if resumed && out.active.size > Charge.readings then return (out.drop index, false)
    match ahead with
    | .endOfText =>
      let children := r.topNodes t ++ k.skipped.reverse
      let root := Node.mk { kind := .error, start := 0, stop := s.size } children
      let inner := Blemish.total r.blemishes
      out := out.offer (stretchCost s children + inner) root
        (r.blemishes.filterMap (·.node)) r.comments
      return (out.drop index, false)
    | _ =>
      let stop := ahead.stop s.size
      if out.betterExists index false (cost + Charge.node + s.stretch k.position stop) then
        return (out.drop index, false)
      let node : Node := match ahead with
        | .token n a b => .leaf (t.tokens.getD n .endOfText) a b
        | .comment a b => .mk { kind := .comment, start := a, stop := b } []
        | .garbage a b => .mk { kind := .error, start := a, stop := b } []
        | .endOfText => default
      let next :=
        { r with mode := .skipping { k with position := stop, skipped := node :: k.skipped } }
      return ({ out with active := out.active.setIfInBounds index next }, true)
  | _ => return (x, true)

/-- Begins to repair a stuck reading. -/
def repair (x : Readings) (index : Nat) : Readings :=
  let r := x.active[index]?.getD default
  match r.mode with
  | .stuck position ahead =>
    let nodes := r.nodes x.table
    let skipping := { r with
      mode := .skipping { places := r.places x.table position, position, skipped := [] }
      nodesBefore := nodes }
    let active := x.active.setIfInBounds index skipping
    let active := match r.supply? x.table position ahead with
      | some items => active.push (r.withSupplied x.table position items)
      | none => active
    ({ x with active }.recover index ahead).1
  | _ => x

/-- Reads on with every reading until it has passed the others. -/
def round (x : Readings) : Readings := Id.run do
  let mut x := x
  let mut last := 0
  let mut index := 0
  let bound := 40 * (x.source.size + 10)
  for _ in [0:bound] do
    match x.active[index]? with
    | none => break
    | some r =>
      let mut pursued := true
      let before := r.position
      match r.mode with
      | .stuck _ _ => pursued := false; index := index + 1
      | .skipping k =>
        let (y, kept) := x.recover index (x.source.lookahead x.table false k.position)
        x := y
        pursued := kept
      | .reading =>
        match r.advance x.table x.source with
        | .onward r' => x := { x with active := x.active.setIfInBounds index r' }
        | .finished r' root =>
          x := x.offer (r'.cost x.source) root (r'.blemishes.filterMap (·.node)) r'.comments
          x := x.drop index
          pursued := false
      if pursued then
        let r' := x.active[index]?.getD default
        let p := r'.position
        let stuck := match r'.mode with | .stuck _ _ => true | _ => false
        if p > last || (index > 0 && p == last) || stuck || p < before then
          if p > last then last := p
          index := index + 1
  return x

/-- Orders the readings, gives up those that are clearly worse, and begins a repair if the best
reading is stuck. -/
def condense (x : Readings) : Readings := Id.run do
  let t := x.table
  let s := x.source
  let mut kept : Array Reading := #[]
  for r in x.active do
    let mut list := kept
    let mut mine := some r
    let mut j := 0
    for _ in [0:64] do
      match mine, list[j]? with
      | some m, some o =>
        match (o.standing t s).compare (m.standing t s) with
        | .takeLeft => mine := none
        | .takeRight => list := (list.toList.eraseIdx j).toArray
        | .preferRight =>
          if o.alike s m then mine := none
          else
            list := list.setIfInBounds j m
            mine := some o
            j := j + 1
        | _ => if o.alike s m then mine := none else j := j + 1
      | _, _ => break
    match mine with
    | some m => list := list.push m
    | none => pure ()
    kept := list
  let mut y := { x with active := kept.take Charge.readings }
  let mut live := false
  let mut index := 0
  for r in y.active do
    match r.mode with
    | .stuck _ _ =>
      if !live && y.finishes < Charge.readings then
        y := y.repair index
        live := true
        index := index + 1
      else y := y.drop index
    | _ =>
      live := true
      index := index + 1
  return y

/-- The least cost of a reading that is not stuck. -/
def leastCost (x : Readings) : Option Nat :=
  (x.active.toList.filterMap fun r =>
    match r.mode with
    | .reading => some (r.cost x.source)
    | _ => none).min?

/-- Rounds until nothing is left to pursue. -/
def loop : Nat → Readings → Readings
  | 0, x => x
  | n + 1, x =>
    if x.active.isEmpty then x
    else
      let x := x.round.condense
      match x.finished, x.leastCost with
      | some (best, _), some least => if best < least then x else loop n x
      | some _, none => x
      | none, _ => loop n x

/-- The cheapest tree of a text, with stretches left out and comments still apart. -/
def run (t : Table) (s : Source) : Node × List Node × List (Nat × Nat) :=
  let x : Readings :=
    { table := t, source := s
      active := #[{ columns := #[], pending := [{ position := 0, items := startItems t }] }] }
  match (loop (4 * s.size + 50) x).finished with
  | some (_, root, left, comments) => (root, left, comments)
  | none => (.mk { kind := .error, start := 0, stop := s.size } [], [], [])

end Readings

end UberPackage.TypeScript
