/-
  Syntax trees over the bytes of a source text.

  * A `Node` has a kind, a byte range and children in order; leaves are tokens.
  * `Node.hasError` holds of a tree in which something was left out or supplied.
-/
import UberPackage.TypeScript.Token

namespace UberPackage.TypeScript

/-- What a node stands for. -/
inductive Kind where
  | token (t : Token)
  | phrase (p : Phrase)
  | comment
  /-- A stretch that fits nowhere. -/
  | error
deriving DecidableEq, Inhabited, Repr

/-- The part a node plays in the phrase around it. -/
inductive Role where
  /-- The string that names a module. -/
  | source
deriving DecidableEq, Inhabited, Repr

/-- A node apart from its children. -/
structure Label where
  kind : Kind
  /-- Offset of the first byte. -/
  start : Nat
  /-- Offset after the last byte. -/
  stop : Nat
  role : Option Role := none
  /-- The token is not in the text: it was supplied to complete a phrase. -/
  missing : Bool := false
deriving DecidableEq, Inhabited, Repr

/-- A syntax tree. -/
inductive Node where
  | mk (label : Label) (children : List Node)
deriving Inhabited, Repr

namespace Kind

/-- Kinds with a name of their own, unlike keywords and punctuation. -/
def named : Kind → Bool
  | token t => t.named
  | _ => true

end Kind

namespace Node

def label : Node → Label
  | mk l _ => l

def children : Node → List Node
  | mk _ cs => cs

def kind (n : Node) : Kind := n.label.kind

def start (n : Node) : Nat := n.label.start

def stop (n : Node) : Nat := n.label.stop

def isPhrase (p : Phrase) (n : Node) : Bool := n.kind == .phrase p

/-- The node has a name of its own. -/
def named (n : Node) : Bool := n.kind.named

/-- The children with a name of their own. -/
def namedChildren (n : Node) : List Node := n.children.filter named

/-- The child that names a module. -/
def source? (n : Node) : Option Node := n.children.find? (·.label.role == some .source)

/-- A leaf for a token of the text. -/
def leaf (t : Token) (start stop : Nat) : Node := mk { kind := .token t, start, stop } []

/-- The same node in another role. -/
def withRole (role : Option Role) : Node → Node
  | mk l cs => mk { l with role } cs

mutual
/-- The number of nodes in the tree. -/
def size : Node → Nat
  | mk _ cs => sizeAll cs + 1
/-- The number of nodes in the trees. -/
def sizeAll : List Node → Nat
  | [] => 0
  | n :: ns => size n + sizeAll ns
end

mutual
/-- Something in the tree was left out or supplied. -/
def hasError : Node → Bool
  | mk l cs => l.kind == .error || l.missing || anyError cs
/-- Something in one of the trees was left out or supplied. -/
def anyError : List Node → Bool
  | [] => false
  | n :: ns => hasError n || anyError ns
end

mutual
/-- The tree with all offsets sent through a map. -/
def mapOffsets (f : Nat → Nat) : Node → Node
  | mk l cs => mk { l with start := f l.start, stop := f l.stop } (mapOffsetsAll f cs)
/-- The trees with all offsets sent through a map. -/
def mapOffsetsAll (f : Nat → Nat) : List Node → List Node
  | [] => []
  | n :: ns => mapOffsets f n :: mapOffsetsAll f ns
end

end Node

end UberPackage.TypeScript
