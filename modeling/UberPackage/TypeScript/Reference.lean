/-
  The places in a syntax tree that name a module.

  * `moduleReferences` walks a tree from left to right with an explicit stack.  It does
    not enter error nodes, nor statements that have given a reference.
  * A reference is the string with the module's name and the statement it belongs to:
    the source of an import or export, the string of `import x = require(…)`, and that
    of `export import x = require(…)`, which the grammar reads as two statements
    (`exportedRequire?`).
-/
import UberPackage.TypeScript.Node
import UberPackage.Text.Utf8

namespace UberPackage.TypeScript

/-- A string that names a module, and the statement it belongs to. -/
structure Reference where
  literal : Node
  statement : Node
deriving Inhabited

/-- A node on its way: what it stands in and what follows it there. -/
structure Visit where
  node : Node
  parent : Option Node
  /-- The siblings after it. -/
  after : List Node
deriving Inhabited

namespace Visit

/-- Each node of a list with the nodes after it. -/
def ofSiblings (parent : Node) : List Node → List Visit
  | [] => []
  | n :: ns => ⟨n, some parent, ns⟩ :: ofSiblings parent ns

/-- The node's children. -/
def children (v : Visit) : List Visit := ofSiblings v.node v.node.children

/-- The next sibling with a name of its own. -/
def nextNamed? (v : Visit) : Option Node := v.after.find? Node.named

end Visit

/-- The bytes of a node. -/
def Node.bytes (source : Bytes) (n : Node) : Bytes := (source.take n.stop).drop n.start

/-- The string alone in parentheses. -/
def enclosedString? (n : Node) : Option Node :=
  if n.isPhrase .parenthesizedExpression then
    match n.namedChildren with
    | [s] => if s.isPhrase .string then some s else none
    | _ => none
  else none

/-- A parenthesized string alone, or as what an expression statement or an error node begins
with: the string. -/
def parenthesizedString? (n : Node) : Option Node :=
  match n.kind, n.namedChildren with
  | .phrase .expressionStatement, c :: _ => enclosedString? c
  | .error, c :: _ => enclosedString? c
  | _, _ => enclosedString? n

/-- The word that loads a module. -/
def requireWord : Bytes := Utf8.encode "require".toList

/-- The string of `export import x = require(…)`.  The grammar reads `export import x = require`,
an alias whose semicolon is missing, and then a parenthesized string. -/
def exportedRequire? (source : Bytes) (v : Visit) : Option Reference := do
  let named ← v.children.find? fun c => c.node.named && c.node.isPhrase .importAlias
  let last ← named.node.namedChildren.getLast?
  if last.bytes source != requireWord then none
  let within := named.nextNamed?.bind fun n =>
    (parenthesizedString? n).map fun s => (⟨s, v.node⟩ : Reference)
  let behind := v.nextNamed?.bind fun n =>
    (parenthesizedString? n).map fun s => (⟨s, n⟩ : Reference)
  within.or behind

/-- What a walk does at a node. -/
inductive Step where
  /-- Gives a reference and goes past the node. -/
  | take (r : Reference)
  /-- Goes past the node. -/
  | pass
  /-- Enters the node. -/
  | enter

/-- What a walk does at a node. -/
def Visit.step (source : Bytes) (v : Visit) : Step :=
  let named? : Option Node := v.node.source?.filter (·.isPhrase .string)
  match v.node.kind with
  | .error => .pass
  | .phrase .importStatement =>
    match named? with
    | some s => .take ⟨s, v.node⟩
    | none => .enter
  | .phrase .exportStatement =>
    match named? with
    | some s => .take ⟨s, v.node⟩
    | none =>
      match exportedRequire? source v with
      | some r => .take r
      | none => .enter
  | .phrase .importRequireClause =>
    match v.node.source?, v.parent with
    | some s, some p => .take ⟨s, p⟩
    | _, _ => .pass
  | _ => .enter

/-- The number of nodes that are still to be walked. -/
def pendingSize : List Visit → Nat
  | [] => 0
  | v :: stack => v.node.size + pendingSize stack

theorem Visit.pendingSize_ofSiblings (p : Node) (ns : List Node) :
    pendingSize (ofSiblings p ns) = Node.sizeAll ns := by
  induction ns with
  | nil => rfl
  | cons n ns ih => rw [ofSiblings, pendingSize, Node.sizeAll, ih]

theorem Node.size_eq (n : Node) : n.size = Node.sizeAll n.children + 1 := by
  cases n with
  | mk l cs => simp [Node.size, Node.children]

theorem pendingSize_append (a b : List Visit) :
    pendingSize (a ++ b) = pendingSize a + pendingSize b := by
  induction a with
  | nil => rw [List.nil_append, pendingSize, Nat.zero_add]
  | cons v a ih => rw [List.cons_append, pendingSize, pendingSize, ih, Nat.add_assoc]

/-- The references below the nodes on a stack, its top first. -/
def walk (source : Bytes) : List Visit → List Reference
  | [] => []
  | v :: rest =>
    match v.step source with
    | .take r => r :: walk source rest
    | .pass => walk source rest
    | .enter => walk source (v.children ++ rest)
termination_by stack => pendingSize stack
decreasing_by
  all_goals
    have := v.node.size_eq
    simp only [pendingSize_append, pendingSize, Visit.children, Visit.pendingSize_ofSiblings]
    omega

/-- The references of a tree over a source, from left to right. -/
def moduleReferences (source : Bytes) (root : Node) : List Reference :=
  walk source [⟨root, none, []⟩]

end UberPackage.TypeScript
