/-
  YAML tokens as a tree.

  * A `Node` is a scalar, a list or a mapping, and knows what it is (`Tag`).
  * An alias is the node with the anchor that it names; inside that node itself it is `within`.
  * `document?` reads the one document of a text.
-/
import UberPackage.Yaml.Tag
import UberPackage.Yaml.Token

namespace UberPackage.Yaml

/-- A node of a document. -/
inductive Node where
  | scalar (tag : Tag) (text : Text)
  | list (tag : Tag) (items : List Node)
  | mapping (tag : Tag) (pairs : List (Node × Node))
  /-- An alias of the node that it stands in. -/
  | within
deriving Inhabited, Repr

namespace Node

/-- How far tokens have been read, and the names that they have declared. -/
structure State where
  tokens : List Token
  /-- What the handles of tags stand for. -/
  handles : List (Text × Text)
  anchors : List (Text × Node)

/-- A reader of tokens. -/
abbrev Reader := StateT State (Except Fault)

namespace Reader

/-- The tokens are not those of a document. -/
def refuse {α : Type} : Reader α := throw .notYaml

/-- The next token. -/
def peek : Reader Token := do
  match (← get).tokens with
  | .fault f :: _ => throw f
  | t :: _ => return t
  | [] => refuse

/-- Goes past the next token. -/
def advance : Reader Unit := modify fun s => { s with tokens := s.tokens.drop 1 }

/-- Goes past the next token if it is this one. -/
def skip? (t : Token) : Reader Bool := do
  if (← peek) == t then
    advance
    return true
  else return false

/-- The next token is one of these. -/
def seesAny (ts : List Token) : Reader Bool := do return ts.contains (← peek)

/-- A node that is not written. -/
def absent : Node := .scalar .null []

/-- Nothing if one of these tokens comes next, or else what a reader reads. -/
def orAbsent (ts : List Token) (read : Reader Node) : Reader Node := do
  if ← seesAny ts then return absent else read

/-- The node with an anchor. -/
def ofAlias (name : Text) : Reader Node := do
  match (← get).anchors.lookup name with
  | some n => return n
  | none => refuse

/-- The URI of a tag, unless the tag asks for what the node looks like. -/
def uri? (tag : Option TagName) : Reader (Option Text) := do
  match tag with
  | none => return none
  | some (none, uri) => return if uri = "!" then none else some uri
  | some (some handle, rest) =>
    match (← get).handles.lookup handle with
    | some start => return some (start ++ rest)
    | none => refuse

/-- An anchor and a tag, in any order. -/
def properties : Reader (Option Text × Option TagName) := do
  match ← peek with
  | .anchor name =>
    advance
    match ← peek with
    | .tag t => advance; return (some name, some t)
    | _ => return (some name, none)
  | .tag t =>
    advance
    match ← peek with
    | .anchor name => advance; return (some name, some t)
    | _ => return (none, some t)
  | _ => return (none, none)

/-- Declares an anchor, which must be new. -/
def declare (anchor : Option Text) (n : Node) : Reader Unit := do
  match anchor with
  | none => return
  | some name =>
    if ((← get).anchors.lookup name).isSome then refuse
    else modify fun s => { s with anchors := (name, n) :: s.anchors }

/-- Gives an anchor the whole of its node. -/
def complete (anchor : Option Text) (n : Node) : Reader Node := do
  match anchor with
  | none => return n
  | some name =>
    modify fun s => { s with anchors := (name, n) :: s.anchors }
    return n

/-- A collection: its anchor stands for the node around while its contents are read. -/
def collection (anchor : Option Text) (read : Reader Node) : Reader Node := do
  declare anchor .within
  complete anchor (← read)

/-- The tag that a URI gives, or another. -/
def tagOr (uri : Option Text) (other : Tag) : Tag := (uri.map Tag.ofUri).getD other

mutual
/-- A node, as an item of a block or inside brackets; a list may stand in the column of its key. -/
def node (block inKeyColumn : Bool) : Nat → Reader Node
  | 0 => refuse
  | n + 1 => do
    match ← peek with
    | .alias name =>
      advance
      ofAlias name
    | _ =>
      let (anchor, tag) ← properties
      let uri ← uri? tag
      match ← peek, block, inKeyColumn with
      | .blockEntry, _, true =>
        collection anchor do return .list (tagOr uri .list) (← columnItems n)
      | .scalar t plain, _, _ =>
        advance
        let looks := plain || tag.isSome
        let scalar := Node.scalar (tagOr uri (if looks then Tag.ofPlain t else .str)) t
        declare anchor scalar
        return scalar
      | .flowListStart, _, _ =>
        advance
        collection anchor do return .list (tagOr uri .list) (← flowItems true n)
      | .flowMappingStart, _, _ =>
        advance
        collection anchor do return .mapping (tagOr uri .mapping) (← flowPairs true n)
      | .blockListStart, true, _ =>
        advance
        collection anchor do return .list (tagOr uri .list) (← blockItems n)
      | .blockMappingStart, true, _ =>
        advance
        collection anchor do return .mapping (tagOr uri .mapping) (← blockPairs n)
      | _, _, _ =>
        if anchor.isNone && tag.isNone then refuse
        else
          let scalar := Node.scalar (tagOr uri .null) []
          declare anchor scalar
          return scalar

/-- The items of a block. -/
def blockItems : Nat → Reader (List Node)
  | 0 => refuse
  | n + 1 => do
    if ← skip? .blockEntry then
      let item ← orAbsent [.blockEntry, .blockEnd] (node true false n)
      return item :: (← blockItems n)
    else if ← skip? .blockEnd then return []
    else refuse

/-- The items of a list in the column of its key. -/
def columnItems : Nat → Reader (List Node)
  | 0 => refuse
  | n + 1 => do
    if ← skip? .blockEntry then
      let item ← orAbsent [.blockEntry, .key, .value, .blockEnd] (node true false n)
      return item :: (← columnItems n)
    else return []

/-- The pairs of a block. -/
def blockPairs : Nat → Reader (List (Node × Node))
  | 0 => refuse
  | n + 1 => do
    if ← skip? .key then
      let key ← orAbsent [.key, .value, .blockEnd] (node true true n)
      let value ←
        if ← skip? .value then orAbsent [.key, .value, .blockEnd] (node true true n)
        else pure absent
      return (key, value) :: (← blockPairs n)
    else if ← skip? .blockEnd then return []
    else refuse

/-- The items between brackets. -/
def flowItems (first : Bool) : Nat → Reader (List Node)
  | 0 => refuse
  | n + 1 => do
    if ← skip? .flowListEnd then return []
    else
      if !first then
        if !(← skip? .flowEntry) then refuse
      if ← skip? .key then
        let key ← orAbsent [.value, .flowEntry, .flowListEnd] (node false false n)
        let value ←
          if ← skip? .value then orAbsent [.flowEntry, .flowListEnd] (node false false n)
          else pure absent
        return .mapping .mapping [(key, value)] :: (← flowItems false n)
      else if ← skip? .flowListEnd then return []
      else
        let item ← node false false n
        return item :: (← flowItems false n)

/-- The pairs between braces. -/
def flowPairs (first : Bool) : Nat → Reader (List (Node × Node))
  | 0 => refuse
  | n + 1 => do
    if ← skip? .flowMappingEnd then return []
    else
      if !first then
        if !(← skip? .flowEntry) then refuse
      if ← skip? .key then
        let key ← orAbsent [.value, .flowEntry, .flowMappingEnd] (node false false n)
        let value ←
          if ← skip? .value then orAbsent [.flowEntry, .flowMappingEnd] (node false false n)
          else pure absent
        return (key, value) :: (← flowPairs false n)
      else if ← skip? .flowMappingEnd then return []
      else
        let key ← node false false n
        return (key, absent) :: (← flowPairs false n)
end

/-- What handles stand for where no directive says otherwise. -/
def defaultHandles : List (Text × Text) := [("!", "!"), ("!!", Tag.common)]

/-- The directives in front of a document; `n` bounds their number. -/
def directives (version : Bool) (handles : List (Text × Text)) : Nat → Reader (List (Text × Text))
  | 0 => refuse
  | n + 1 => do
    match ← peek with
    | .directive (.version major) =>
      if version || major != 1 then refuse
      else
        advance
        directives true handles n
    | .directive (.tag handle uri) =>
      if (handles.lookup handle).isSome then refuse
      else
        advance
        directives version ((handle, uri) :: handles) n
    | .directive .other =>
      advance
      directives version handles n
    | _ => return handles

/-- Goes past markers behind a document; `n` bounds their number. -/
def skipEnds : Nat → Reader Unit
  | 0 => refuse
  | n + 1 => do
    if ← skip? .documentEnd then skipEnds n

/-- A document with directives or a marker in front. -/
def markedDocument (n : Nat) : Reader (Option Node) := do
  skipEnds n
  if (← peek) == .streamEnd then return none
  let handles ← directives false [] n
  modify fun s => { s with handles := handles ++ defaultHandles }
  if !(← skip? .documentStart) then refuse
  match ← peek with
  | .directive _ | .documentStart | .documentEnd | .streamEnd => return some absent
  | _ => return some (← node true false n)

/-- The first document. -/
def firstDocument (n : Nat) : Reader (Option Node) := do
  match ← peek with
  | .directive _ | .documentStart | .streamEnd => markedDocument n
  | _ =>
    modify fun s => { s with handles := defaultHandles }
    return some (← node true false n)

/-- The only document, if there is one. -/
def onlyDocument (n : Nat) : Reader (Option Node) := do
  let found ← firstDocument n
  skipEnds n
  if (← peek) == .streamEnd then return found else refuse

end Reader

/-- The document of a text, if there is one. -/
def document? (cs : List Char) : Except Fault (Option Node) :=
  let ts := tokens cs
  (·.1) <$> (Reader.onlyDocument (4 * ts.length + 4)).run ⟨ts, [], []⟩

end Node

end UberPackage.Yaml
