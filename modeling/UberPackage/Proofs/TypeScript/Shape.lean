/-
  The shape of a syntax tree over a text.

  In a shaped tree (`Node.Shaped`) ranges nest, siblings follow one another, nodes begin and end
  between characters, and strings are quoted and hold no statements.

  The outermost strings of a tree (`Node.strings`) stand one after the other, and a node that is
  not inside a string (`Node.outer`) does not end inside one (`Node.Ranged.outer_apart`).
-/
import Mathlib.Data.List.Basic
import Mathlib.Data.List.Pairwise
import UberPackage.TypeScript.Reference
import UberPackage.Proofs.Text.Slice

namespace UberPackage.TypeScript

namespace Node

/-- The node stands in the tree. -/
inductive Occurs : Node → Node → Prop where
  | here (n : Node) : Occurs n n
  | inside {root child n : Node} (h : child ∈ root.children) (hn : Occurs child n) : Occurs root n

theorem sizeOf_child {n c : Node} (h : c ∈ n.children) : sizeOf c < sizeOf n := by
  cases n with
  | mk l cs =>
    have := List.sizeOf_lt_of_mem (show c ∈ cs from h)
    rw [Node.mk.sizeOf_spec]
    omega

/-- What passes from the children to a node holds of every node. -/
theorem induct {P : Node → Prop} (step : ∀ n, (∀ c ∈ n.children, P c) → P n) (n : Node) : P n :=
  step n fun c _ => induct step c
termination_by sizeOf n
decreasing_by exact sizeOf_child ‹_›

/-! ## Strings and what is outside -/

mutual
/-- The outermost strings of a tree, from left to right. -/
def strings : Node → List Node
  | mk l cs => if l.kind == .phrase .string then [mk l cs] else stringsAll cs
/-- The outermost strings of trees. -/
def stringsAll : List Node → List Node
  | [] => []
  | n :: ns => strings n ++ stringsAll ns
end

mutual
/-- The nodes of a tree that are neither strings nor inside one. -/
def outer : Node → List Node
  | mk l cs => if l.kind == .phrase .string then [] else mk l cs :: outerAll cs
/-- The nodes of trees that are neither strings nor inside one. -/
def outerAll : List Node → List Node
  | [] => []
  | n :: ns => outer n ++ outerAll ns
end

theorem stringsAll_eq (ns : List Node) : stringsAll ns = ns.flatMap strings := by
  induction ns with
  | nil => rfl
  | cons n ns ih => rw [stringsAll, ih, List.flatMap_cons]

theorem outerAll_eq (ns : List Node) : outerAll ns = ns.flatMap outer := by
  induction ns with
  | nil => rfl
  | cons n ns ih => rw [outerAll, ih, List.flatMap_cons]

theorem strings_of_string {n : Node} (h : n.isPhrase .string = true) : n.strings = [n] := by
  cases n with
  | mk l cs => rw [strings, if_pos]; exact h

theorem strings_of_not_string {n : Node} (h : n.isPhrase .string = false) :
    n.strings = n.children.flatMap strings := by
  cases n with
  | mk l cs =>
    rw [strings, if_neg (fun hs => by simp [isPhrase, kind, label, hs] at h), stringsAll_eq]
    rfl

theorem outer_of_string {n : Node} (h : n.isPhrase .string = true) : n.outer = [] := by
  cases n with
  | mk l cs => rw [outer, if_pos]; exact h

theorem outer_of_not_string {n : Node} (h : n.isPhrase .string = false) :
    n.outer = n :: n.children.flatMap outer := by
  cases n with
  | mk l cs =>
    rw [outer, if_neg (fun hs => by simp [isPhrase, kind, label, hs] at h), outerAll_eq]
    rfl

theorem occurs_of_mem_strings {n s : Node} (h : s ∈ n.strings) :
    n.Occurs s ∧ s.isPhrase .string = true := by
  induction n using induct with
  | step n ih =>
    cases hn : n.isPhrase .string with
    | true =>
      rw [strings_of_string hn, List.mem_singleton] at h
      subst h
      exact ⟨.here s, hn⟩
    | false =>
      rw [strings_of_not_string hn] at h
      obtain ⟨c, hc, hs⟩ := List.mem_flatMap.mp h
      exact ⟨.inside hc (ih c hc hs).1, (ih c hc hs).2⟩

theorem occurs_of_mem_outer {n o : Node} (h : o ∈ n.outer) : n.Occurs o := by
  induction n using induct with
  | step n ih =>
    cases hn : n.isPhrase .string with
    | true =>
      rw [outer_of_string hn] at h
      exact absurd h List.not_mem_nil
    | false =>
      rw [outer_of_not_string hn] at h
      rcases List.mem_cons.mp h with rfl | h
      · exact .here o
      · obtain ⟨c, hc, ho⟩ := List.mem_flatMap.mp h
        exact .inside hc (ih c hc ho)

/-! ## Ranges -/

/-- One node ends before the other begins. -/
def Apart (a b : Node) : Prop := a.stop ≤ b.start ∨ b.stop ≤ a.start

instance : Std.Symm Apart := ⟨fun _ _ h => Or.symm h⟩

/-- Ranges nest inside their parents, and siblings follow one another. -/
structure Ranged (root : Node) : Prop where
  forward : ∀ n, root.Occurs n → n.start ≤ n.stop
  nested : ∀ n, root.Occurs n → ∀ c ∈ n.children, n.start ≤ c.start ∧ c.stop ≤ n.stop
  ordered : ∀ n, root.Occurs n → n.children.Pairwise fun c d => c.stop ≤ d.start

namespace Ranged

variable {n : Node}

theorem child (h : n.Ranged) {c : Node} (hc : c ∈ n.children) : c.Ranged where
  forward m hm := h.forward m (.inside hc hm)
  nested m hm := h.nested m (.inside hc hm)
  ordered m hm := h.ordered m (.inside hc hm)

theorem within (h : n.Ranged) {m : Node} (hm : n.Occurs m) :
    n.start ≤ m.start ∧ m.stop ≤ n.stop := by
  induction hm with
  | here => exact ⟨Nat.le_refl _, Nat.le_refl _⟩
  | @inside root c m hc hm ih =>
    have hn := h.nested _ (.here root) c hc
    have hi := ih (h.child hc)
    omega

theorem strings_within (h : n.Ranged) {s : Node} (hs : s ∈ n.strings) :
    n.start ≤ s.start ∧ s.stop ≤ n.stop := h.within (occurs_of_mem_strings hs).1

/-- The outermost strings follow one another. -/
theorem strings_ordered (h : n.Ranged) : n.strings.Pairwise fun s t => s.stop ≤ t.start := by
  induction n using induct with
  | step n ih =>
    cases hn : n.isPhrase .string with
    | true =>
      rw [strings_of_string hn]
      exact List.pairwise_singleton _ _
    | false =>
      rw [strings_of_not_string hn, List.pairwise_flatMap]
      refine ⟨fun c hc => ih c hc (h.child hc), ?_⟩
      refine (h.ordered n (.here n)).imp_of_mem fun {c d} hc hd hcd s hs t ht => ?_
      have hsc := (h.child hc).strings_within hs
      have htd := (h.child hd).strings_within ht
      omega

/-- Different children stand one before the other. -/
theorem children_apart (h : n.Ranged) {c d : Node} (hc : c ∈ n.children) (hd : d ∈ n.children)
    (hne : c ≠ d) : c.Apart d := by
  have hp : n.children.Pairwise Apart := (h.ordered n (.here n)).imp fun h => Or.inl h
  exact hp.forall hc hd hne

/-- A node outside of strings does not end inside one. -/
theorem outer_apart (h : n.Ranged) {o s : Node} (ho : o ∈ n.outer) (hs : s ∈ n.strings) :
    o.stop ≤ s.start ∨ s.stop ≤ o.stop := by
  induction n using induct with
  | step n ih =>
    cases hn : n.isPhrase .string with
    | true =>
      rw [outer_of_string hn] at ho
      exact absurd ho List.not_mem_nil
    | false =>
      rw [outer_of_not_string hn] at ho
      rcases List.mem_cons.mp ho with rfl | ho
      · exact Or.inr (h.strings_within hs).2
      · rw [strings_of_not_string hn] at hs
        obtain ⟨c, hc, hoc⟩ := List.mem_flatMap.mp ho
        obtain ⟨d, hd, hsd⟩ := List.mem_flatMap.mp hs
        have hor := (h.child hc).within (occurs_of_mem_outer hoc)
        have hfor := (h.child hc).forward o (occurs_of_mem_outer hoc)
        have hsr := (h.child hd).strings_within hsd
        by_cases hcd : c = d
        · subst hcd
          exact ih c hc (h.child hc) hoc hsd
        · rcases h.children_apart hc hd hcd with hsep | hsep
          · exact Or.inl (by omega)
          · exact Or.inr (by omega)

end Ranged

/-! ## Trees over a text -/

/-- The node is a statement or clause that can name a module. -/
def namesModule (n : Node) : Bool :=
  n.isPhrase .importStatement || n.isPhrase .exportStatement || n.isPhrase .importRequireClause

/-- The characters of a node. -/
def chars (cs : List Char) (n : Node) : List Char := Utf8.slice cs n.start n.stop

/-- What is taken for granted of a syntax tree over a text. -/
structure Shaped (cs : List Char) (root : Node) : Prop extends Ranged root where
  /-- Nodes begin and end between characters. -/
  boundaries : ∀ n, root.Occurs n → Utf8.IsBoundary cs n.start ∧ Utf8.IsBoundary cs n.stop
  /-- What a clause loads is named by a string. -/
  clauses : ∀ n, root.Occurs n → n.isPhrase .importRequireClause = true →
    ∀ s, n.source? = some s → s.isPhrase .string = true
  /-- A string opens and closes with the same quote. -/
  quoted : ∀ n, root.Occurs n → n.isPhrase .string = true →
    ∃ quote inner, n.chars cs = quote :: (inner ++ [quote])
  /-- A string holds no statements. -/
  plain : ∀ n, root.Occurs n → n.isPhrase .string = true → ∀ m, n.Occurs m → m.namesModule = false

namespace Shaped

variable {cs : List Char} {n : Node}

theorem child (h : n.Shaped cs) {c : Node} (hc : c ∈ n.children) : c.Shaped cs where
  toRanged := h.toRanged.child hc
  boundaries m hm := h.boundaries m (.inside hc hm)
  clauses m hm := h.clauses m (.inside hc hm)
  quoted m hm := h.quoted m (.inside hc hm)
  plain m hm := h.plain m (.inside hc hm)

/-- A node cuts its characters out of the text. -/
theorem exists_chars (h : n.Shaped cs) {m : Node} (hm : n.Occurs m) :
    ∃ a b, cs = a ++ m.chars cs ++ b ∧ Utf8.size a = m.start ∧
      Utf8.size (a ++ m.chars cs) = m.stop :=
  Utf8.exists_slice (h.boundaries m hm).1 (h.boundaries m hm).2 (h.forward m hm)

theorem bytes_eq (h : n.Shaped cs) {m : Node} (hm : n.Occurs m) :
    m.bytes (Utf8.encode cs) = Utf8.encode (m.chars cs) :=
  Utf8.bytes_slice (h.boundaries m hm).1 (h.boundaries m hm).2 (h.forward m hm)

end Shaped

/-! ## Checking the shape -/

mutual
/-- The nodes of a tree, each before its children. -/
def nodes : Node → List Node
  | mk l cs => mk l cs :: nodesAll cs
/-- The nodes of trees. -/
def nodesAll : List Node → List Node
  | [] => []
  | n :: ns => nodes n ++ nodesAll ns
end

theorem nodesAll_eq (ns : List Node) : nodesAll ns = ns.flatMap nodes := by
  induction ns with
  | nil => rfl
  | cons n ns ih => rw [nodesAll, ih, List.flatMap_cons]

theorem nodes_eq (n : Node) : n.nodes = n :: n.children.flatMap nodes := by
  cases n with
  | mk l cs => rw [nodes, nodesAll_eq]; rfl

theorem mem_nodes {n m : Node} (h : n.Occurs m) : m ∈ n.nodes := by
  induction h with
  | here n => rw [nodes_eq]; exact List.mem_cons_self
  | inside hc _ ih =>
    rw [nodes_eq]
    exact List.mem_cons_of_mem _ (List.mem_flatMap.mpr ⟨_, hc, ih⟩)

/-- The characters open and close with the same one. -/
def isQuoted : List Char → Bool
  | [] => false
  | quote :: rest => rest.getLast? == some quote

theorem exists_of_isQuoted {cs : List Char} (h : isQuoted cs = true) :
    ∃ quote inner, cs = quote :: (inner ++ [quote]) := by
  cases cs with
  | nil => exact absurd h (by simp [isQuoted])
  | cons quote rest =>
    obtain ⟨inner, hi⟩ := List.getLast?_eq_some_iff.mp (beq_iff_eq.mp h)
    exact ⟨quote, inner, by rw [hi]⟩

/-- What a shaped tree has at one node. -/
def isShapedAt (cs : List Char) (n : Node) : Bool :=
  n.start ≤ n.stop && n.children.all (fun c => n.start ≤ c.start && c.stop ≤ n.stop) &&
    decide (n.children.Pairwise fun c d => c.stop ≤ d.start) &&
    (Utf8.size (Utf8.before n.start cs) == n.start &&
      Utf8.size (Utf8.before n.stop cs) == n.stop) &&
    (!n.isPhrase .importRequireClause || n.source?.all (isPhrase .string)) &&
    (!n.isPhrase .string || (isQuoted (n.chars cs) && n.nodes.all (!namesModule ·)))

/-- The shape of a tree can be checked node by node. -/
theorem shaped_of_check {cs : List Char} {root : Node} (h : root.nodes.all (isShapedAt cs) = true) :
    root.Shaped cs := by
  have hat : ∀ n, root.Occurs n → isShapedAt cs n = true := fun n hn =>
    List.all_eq_true.mp h n (mem_nodes hn)
  simp only [isShapedAt, Bool.and_eq_true, decide_eq_true_eq, beq_iff_eq, Bool.or_eq_true,
    Bool.not_eq_true', List.all_eq_true] at hat
  exact {
    forward := fun n hn => (hat n hn).1.1.1.1.1
    nested := fun n hn => (hat n hn).1.1.1.1.2
    ordered := fun n hn => (hat n hn).1.1.1.2
    boundaries := fun n hn => ⟨Utf8.isBoundary_of_size_before (hat n hn).1.1.2.1,
      Utf8.isBoundary_of_size_before (hat n hn).1.1.2.2⟩
    clauses := fun n hn hc s hs => by
      have hclause := (hat n hn).1.2.resolve_left (by simp [hc])
      rw [hs] at hclause
      exact hclause
    quoted := fun n hn hs => exists_of_isQuoted ((hat n hn).2.resolve_left (by simp [hs])).1
    plain := fun n hn hs m hm =>
      ((hat n hn).2.resolve_left (by simp [hs])).2 m (mem_nodes hm) }

end Node

end UberPackage.TypeScript
