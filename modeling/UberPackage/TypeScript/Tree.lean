/-
  The syntax tree of a source text.

  * `parse` reads any text; damaged stretches become error nodes.
  * Comments and error nodes belong to the innermost phrase around them.
-/
import UberPackage.TypeScript.Repair

namespace UberPackage.TypeScript

mutual
/-- The tree with a node put into the innermost phrase around its range. -/
def Node.insert (x : Node) : Node → Node
  | .mk l cs => .mk l (Node.insertAmong x cs)
/-- The nodes with one more put among them, or into the one around its range. -/
def Node.insertAmong (x : Node) : List Node → List Node
  | [] => [x]
  | c :: cs =>
    let holds := match c.kind with
      | .phrase _ | .error => c.start < c.stop && c.start ≤ x.start && x.stop ≤ c.stop
      | _ => false
    if holds then Node.insert x c :: cs
    else if x.stop ≤ c.start then x :: c :: cs
    else c :: Node.insertAmong x cs
end

/-- The syntax tree of a text, with byte offsets. -/
def parse (cs : List Char) : Node :=
  let source := Source.ofChars cs
  let (root, left, comments) := Readings.run table source
  let root := left.reverse.foldl (fun n x => Node.insert x n) root
  let root := comments.eraseDups.foldl (fun n (a, b) =>
    Node.insert (.mk { kind := .comment, start := a, stop := b } []) n) root
  root.mapOffsets source.offset

end UberPackage.TypeScript
