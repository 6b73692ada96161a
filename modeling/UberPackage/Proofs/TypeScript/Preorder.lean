/-
  References in preorder.

  `Node.preorder` reads a tree by recursion, from left to right: what a node names (`Visit.names?`),
  then what its children name.  It does not go below error nodes, below clauses, and below what has
  named a module (`Visit.isCut`).  The walk with a stack gives the same references
  (`moduleReferences_eq_preorder`), so each is named at a node that the walk reaches
  (`mem_moduleReferences_iff`).
-/
import UberPackage.Proofs.TypeScript.Reference

namespace UberPackage.TypeScript

variable {source : Bytes}

/-! ## What a node names -/

namespace Visit

/-- The string with which a statement names a module. -/
def sourceString? (v : Visit) : Option Node := v.node.source?.filter (·.isPhrase .string)

/-- The first alias in a statement. -/
def alias? (v : Visit) : Option Visit := v.children.find? (·.node.isPhrase .importAlias)

/-- The alias in the statement ends with the word that loads a module. -/
def aliasesRequire (source : Bytes) (v : Visit) : Bool :=
  v.alias?.any fun a => a.node.namedChildren.getLast?.any (·.bytes source == requireWord)

/-- Where the argument of an alias can stand, and the statement that it then belongs to: in the
next named sibling of the alias, or in that of the statement. -/
def inspected (v : Visit) : List (Node × Node) :=
  (v.alias?.bind nextNamed?).toList.map (fun n => (n, v.node)) ++
    v.nextNamed?.toList.map fun n => (n, n)

/-- The argument of an alias of the word that loads a module. -/
def recovered? (source : Bytes) (v : Visit) : Option Reference :=
  if v.aliasesRequire source then
    v.inspected.findSome? fun (n, owner) => (parenthesizedString? n).map fun s => ⟨s, owner⟩
  else none

/-- The reference that is found at a node. -/
def names? (source : Bytes) (v : Visit) : Option Reference :=
  if v.node.isPhrase .importRequireClause then
    v.node.source?.bind fun s => v.parent.map fun p => ⟨s, p⟩
  else if v.node.isPhrase .importStatement then
    v.sourceString?.map fun s => ⟨s, v.node⟩
  else if v.node.isPhrase .exportStatement then
    (v.sourceString?.map fun s => ⟨s, v.node⟩).or (v.recovered? source)
  else none

/-- Nothing is looked for below the node. -/
def isCut (source : Bytes) (v : Visit) : Bool :=
  v.node.kind == .error || v.node.isPhrase .importRequireClause || (v.names? source).isSome

end Visit

mutual
/-- The references of a tree in preorder. -/
def Node.preorder (source : Bytes) (parent : Option Node) (after : List Node) :
    Node → List Reference
  | .mk l cs =>
    (Visit.names? source ⟨.mk l cs, parent, after⟩).toList ++
      if Visit.isCut source ⟨.mk l cs, parent, after⟩ then []
        else Node.preorderAll source (.mk l cs) cs
/-- The references of siblings in preorder. -/
def Node.preorderAll (source : Bytes) (parent : Node) : List Node → List Reference
  | [] => []
  | n :: ns => Node.preorder source (some parent) ns n ++ Node.preorderAll source parent ns
end

/-- The references of the tree at a visited node. -/
def Visit.preorder (source : Bytes) (v : Visit) : List Reference :=
  v.node.preorder source v.parent v.after

theorem preorderAll_eq (p : Node) (ns : List Node) :
    Node.preorderAll source p ns = (Visit.ofSiblings p ns).flatMap (Visit.preorder source) := by
  induction ns with
  | nil => rfl
  | cons n ns ih =>
    rw [Node.preorderAll, ih, Visit.ofSiblings, List.flatMap_cons]
    rfl

theorem Visit.preorder_eq (v : Visit) :
    v.preorder source = (v.names? source).toList ++
      if v.isCut source then [] else v.children.flatMap (Visit.preorder source) := by
  obtain ⟨⟨l, cs⟩, p, after⟩ := v
  rw [Visit.preorder, Node.preorder, preorderAll_eq]
  rfl

/-! ## The walk is in preorder -/

theorem exportedRequire?_eq (v : Visit) : exportedRequire? source v = v.recovered? source := by
  have hnamed : (fun c : Visit => c.node.named && c.node.isPhrase .importAlias) =
      fun c => c.node.isPhrase .importAlias := by
    funext c
    cases h : c.node.isPhrase .importAlias with
    | false => rw [Bool.and_false]
    | true =>
      rw [Node.isPhrase, beq_iff_eq] at h
      rw [Node.named, h]
      rfl
  unfold exportedRequire? Visit.recovered? Visit.aliasesRequire Visit.inspected Visit.alias?
  rw [hnamed]
  cases v.children.find? (·.node.isPhrase .importAlias) with
  | none => rfl
  | some a =>
    cases hl : a.node.namedChildren.getLast? with
    | none => simp [hl]
    | some w =>
      by_cases hw : w.bytes source = requireWord
      · simp only [Option.bind_eq_bind, Option.bind_some, Option.any_some, hl, hw,
          bne_self_eq_false,
          BEq.rfl, if_true, Bool.false_eq_true, if_false, List.findSome?_append, List.findSome?_map]
        congr 1
        · cases a.nextNamed? <;> simp
        · cases v.nextNamed? <;> simp
      · simp [hl, hw]

/-- A step of the walk, from what the node names. -/
theorem Visit.step_eq (v : Visit) :
    v.step source = match v.names? source with
      | some r => .take r
      | none => if v.isCut source then .pass else .enter := by
  unfold Visit.step
  dsimp only
  split
  · next hk => simp [isCut, names?, Node.isPhrase, hk]
  · next hk =>
    rw [isCut, names?, Node.isPhrase, Node.isPhrase, hk, sourceString?]
    cases v.node.source?.filter (·.isPhrase .string) <;> rfl
  · next hk =>
    rw [isCut, names?, Node.isPhrase, Node.isPhrase, Node.isPhrase, hk, sourceString?,
      exportedRequire?_eq]
    cases v.node.source?.filter (·.isPhrase .string) with
    | some s => rfl
    | none => cases v.recovered? source <;> rfl
  · next hk =>
    rw [isCut, names?, Node.isPhrase, hk]
    cases v.node.source? with
    | none => rfl
    | some s => cases v.parent <;> rfl
  · next herror himport hexport hclause =>
    have hne : ∀ {k : Kind}, (v.node.kind = k → False) → (v.node.kind == k) = false := fun h =>
      beq_eq_false_iff_ne.mpr h
    rw [isCut, names?, Node.isPhrase, Node.isPhrase, Node.isPhrase, hne herror,
      hne himport, hne hexport,
      hne hclause]
    rfl

namespace Visit

variable {v : Visit}

theorem names?_of_not_cut (h : v.isCut source = false) : v.names? source = none := by
  rw [isCut, Bool.or_eq_false_iff] at h
  exact Option.isSome_eq_false_iff.mp h.2 |> Option.isNone_iff_eq_none.mp

theorem names?_of_take {r : Reference} (h : v.step source = .take r) :
    v.names? source = some r := by
  rw [step_eq] at h
  split at h
  · next hr => rw [hr, Step.take.inj h]
  · split at h <;> cases h

theorem cut_of_pass (h : v.step source = .pass) :
    v.names? source = none ∧ v.isCut source = true := by
  rw [step_eq] at h
  split at h
  · cases h
  · next hr =>
    split at h
    · next hc => exact ⟨hr, hc⟩
    · cases h

theorem not_cut_of_enter (h : v.step source = .enter) : v.isCut source = false := by
  rw [step_eq] at h
  split at h
  · cases h
  · split at h
    · cases h
    · next hc => exact Bool.eq_false_iff.mpr hc

end Visit

/-- The walk gives the references of the nodes on its stack, the first node's first. -/
theorem walk_eq_preorder (stack : List Visit) :
    walk source stack = stack.flatMap (Visit.preorder source) := by
  induction stack using walk.induct source with
  | case1 => rw [walk, List.flatMap_nil]
  | case2 v rest r hs ih =>
    have hv : v.preorder source = [r] := by
      have hn := Visit.names?_of_take hs
      rw [Visit.preorder_eq, hn, Visit.isCut, hn, Option.isSome_some, Bool.or_true, if_pos rfl]
      rfl
    rw [walk, hs, List.flatMap_cons, hv, ← ih]
    rfl
  | case3 v rest hs ih =>
    obtain ⟨hn, hc⟩ := Visit.cut_of_pass hs
    rw [walk, hs, List.flatMap_cons, Visit.preorder_eq, hn, if_pos hc, ← ih]
    rfl
  | case4 v rest hs ih =>
    have hc := Visit.not_cut_of_enter hs
    rw [walk, hs, List.flatMap_cons, Visit.preorder_eq, Visit.names?_of_not_cut hc,
      if_neg (by simp [hc]),
      Option.toList_none, List.nil_append, ← List.flatMap_append, ← ih]

/-- The references of a tree are found in preorder. -/
theorem moduleReferences_eq_preorder (root : Node) :
    moduleReferences source root = root.preorder source none [] := by
  rw [moduleReferences, walk_eq_preorder, List.flatMap_cons, List.flatMap_nil, List.append_nil]
  rfl

/-! ## Where references are named -/

namespace Visit

/-- Reading in preorder comes to a node. -/
inductive Reaches (source : Bytes) (v : Visit) : Visit → Prop where
  | here : Reaches source v v
  | child {w u : Visit} (hw : Reaches source v w) (hc : w.isCut source = false)
    (hu : u ∈ w.children) :
    Reaches source v u

theorem Reaches.trans {v w u : Visit} (h : v.Reaches source w) (hu : w.Reaches source u) :
    v.Reaches source u := by
  induction hu with
  | here => exact h
  | child _ hc hu ih => exact .child ih hc hu

theorem preorder_of_not_cut {v : Visit} (h : v.isCut source = false) :
    v.preorder source = v.children.flatMap (preorder source) := by
  rw [preorder_eq, names?_of_not_cut h, if_neg (by simp [h])]
  rfl

theorem preorder_of_names? {v : Visit} {r : Reference} (h : v.names? source = some r) :
    v.preorder source = [r] := by
  rw [preorder_eq, h, isCut, h, Option.isSome_some, Bool.or_true, if_pos rfl]
  rfl

theorem preorder_of_cut {v : Visit} (hn : v.names? source = none) (hc : v.isCut source = true) :
    v.preorder source = [] := by
  rw [preorder_eq, hn, if_pos hc]
  rfl

end Visit

/-- The references of a tree are those that are named where reading it comes to. -/
theorem mem_preorder {v : Visit} {r : Reference} :
    r ∈ v.preorder source ↔ ∃ w, v.Reaches source w ∧ w.names? source = some r := by
  constructor
  · obtain ⟨n, p, after⟩ := v
    induction n using Node.induct generalizing p after with
    | step n ih =>
      intro hr
      cases hn : Visit.names? source ⟨n, p, after⟩ with
      | some t =>
        rw [Visit.preorder_of_names? hn, List.mem_singleton] at hr
        subst hr
        exact ⟨_, .here, hn⟩
      | none =>
        cases hc : Visit.isCut source ⟨n, p, after⟩ with
        | true =>
          rw [Visit.preorder_of_cut hn hc] at hr
          exact absurd hr List.not_mem_nil
        | false =>
          rw [Visit.preorder_of_not_cut hc] at hr
          obtain ⟨u, hu, hr⟩ := List.mem_flatMap.mp hr
          obtain ⟨w, hw, hr⟩ := ih u.node (mem_ofSiblings hu).1 u.parent u.after hr
          exact ⟨w, (Visit.Reaches.child .here hc hu).trans hw, hr⟩
  · rintro ⟨w, hw, hr⟩
    have hown : r ∈ w.preorder source := by
      rw [Visit.preorder_of_names? hr]
      exact List.mem_singleton_self r
    clear hr
    induction hw with
    | here => exact hown
    | @child w u _ hc hu ih =>
      refine ih ?_
      rw [Visit.preorder_of_not_cut hc]
      exact List.mem_flatMap.mpr ⟨u, hu, hown⟩

/-- A tree at its root. -/
def Node.top (root : Node) : Visit := ⟨root, none, []⟩

theorem mem_moduleReferences_iff {root : Node} {r : Reference} :
    r ∈ moduleReferences source root ↔
      ∃ v, root.top.Reaches source v ∧ v.names? source = some r := by
  rw [moduleReferences_eq_preorder]
  exact mem_preorder (v := root.top)

theorem exists_mem_ofSiblings (p : Node) {ns : List Node} {m : Node} (h : m ∈ ns) :
    ∃ u ∈ Visit.ofSiblings p ns, u.node = m := by
  induction ns with
  | nil => exact absurd h List.not_mem_nil
  | cons n ns ih =>
    rcases List.mem_cons.mp h with rfl | h
    · exact ⟨_, List.mem_cons_self, rfl⟩
    · obtain ⟨u, hu, rfl⟩ := ih h
      exact ⟨u, List.mem_cons_of_mem _ hu, rfl⟩

theorem Node.Occurs.trans {n m l : Node} (h : n.Occurs m) (hl : m.Occurs l) : n.Occurs l := by
  induction h with
  | here => exact hl
  | inside hc _ ih => exact .inside hc (ih hl)

namespace Visit.Reaches

variable {root : Node} {v : Visit}

/-- A node that is reached stands in the tree below the node it is said to stand in. -/
theorem occurs (h : root.top.Reaches source v) :
    root.Occurs v.node ∧ ∀ p, v.parent = some p → root.Occurs p ∧ v.node ∈ p.children := by
  induction h with
  | here => exact ⟨.here root, fun p hp => absurd hp (by simp [Node.top])⟩
  | @child w u _ _ hu ih =>
    obtain ⟨hn, hp, -⟩ := mem_ofSiblings hu
    refine ⟨ih.1.trans (.inside hn (.here _)), fun p hup => ?_⟩
    rw [hp, Option.some.injEq] at hup
    subst hup
    exact ⟨ih.1, hn⟩

/-- What follows a node that is reached is reached as well. -/
theorem after (h : root.top.Reaches source v) {m : Node} (hm : m ∈ v.after) :
    ∃ u, root.top.Reaches source u ∧ u.node = m := by
  cases h with
  | here => exact absurd hm List.not_mem_nil
  | child hw hc hu =>
    obtain ⟨u, hu, rfl⟩ := exists_mem_ofSiblings _ ((mem_ofSiblings hu).2.2 m hm)
    exact ⟨u, .child hw hc hu, rfl⟩

end Visit.Reaches

/-! ## What a named reference looks like -/

namespace Visit

variable {v : Visit} {r : Reference}

theorem mem_inspected {n owner : Node} : (n, owner) ∈ v.inspected ↔
    (owner = v.node ∧ ∃ a, v.alias? = some a ∧ a.nextNamed? = some n) ∨
      (owner = n ∧ v.nextNamed? = some n) := by
  simp only [inspected, List.mem_append, List.mem_map, Option.mem_toList,
    Option.bind_eq_some_iff, Prod.mk.injEq]
  constructor
  · rintro (⟨m, h, rfl, rfl⟩ | ⟨m, h, rfl, rfl⟩)
    · exact Or.inl ⟨rfl, h⟩
    · exact Or.inr ⟨rfl, h⟩
  · rintro (⟨rfl, h⟩ | ⟨rfl, h⟩)
    · exact Or.inl ⟨n, h, rfl, rfl⟩
    · exact Or.inr ⟨owner, h, rfl, rfl⟩

/-- What is inspected is a child of the statement or follows it. -/
theorem mem_of_mem_inspected {n owner : Node} (h : (n, owner) ∈ v.inspected) :
    (owner = v.node ∧ n ∈ v.node.children) ∨ (owner = n ∧ v.nextNamed? = some n) := by
  rcases mem_inspected.mp h with ⟨ho, a, ha, hn⟩ | h
  · exact Or.inl ⟨ho, (mem_ofSiblings (List.mem_of_find?_eq_some ha)).2.2 n (nextNamed?_mem hn)⟩
  · exact Or.inr h

theorem recovered?_eq_some (h : v.recovered? source = some r) : v.aliasesRequire source = true ∧
    ∃ n, (n, r.statement) ∈ v.inspected ∧ parenthesizedString? n = some r.literal := by
  rw [recovered?] at h
  split at h
  · next hreq =>
    obtain ⟨⟨n, owner⟩, hn, hs⟩ := List.exists_of_findSome?_eq_some h
    obtain ⟨s, hp, rfl⟩ := Option.map_eq_some_iff.mp hs
    exact ⟨hreq, n, hn, hp⟩
  · cases h

/-- A reference is the source of a statement or clause, or the argument of an exported alias. -/
theorem names?_eq_some (h : v.names? source = some r) :
    (v.node.namesModule = true ∧ v.node.source? = some r.literal ∧
        (r.statement = v.node ∨ v.parent = some r.statement)) ∨
      (v.node.isPhrase .exportStatement = true ∧ v.sourceString? = none ∧
        v.recovered? source = some r) := by
  have hsource : v.sourceString?.map (fun s => (⟨s, v.node⟩ : Reference)) = some r →
      v.node.source? = some r.literal ∧ r.statement = v.node := fun h => by
    obtain ⟨s, hs, rfl⟩ := Option.map_eq_some_iff.mp h
    exact ⟨(Option.filter_eq_some_iff.mp hs).1, rfl⟩
  rw [names?] at h
  split at h
  · next hk =>
    obtain ⟨s, hs, h⟩ := Option.bind_eq_some_iff.mp h
    obtain ⟨p, hp, rfl⟩ := Option.map_eq_some_iff.mp h
    exact Or.inl ⟨by simp [Node.namesModule, hk], hs, Or.inr hp⟩
  · split at h
    · next hk =>
      obtain ⟨hs, ho⟩ := hsource h
      exact Or.inl ⟨by simp [Node.namesModule, hk], hs, Or.inl ho⟩
    · split at h
      · next hk =>
        rcases Option.or_eq_some_iff.mp h with h | ⟨hn, h⟩
        · obtain ⟨hs, ho⟩ := hsource h
          exact Or.inl ⟨by simp [Node.namesModule, hk], hs, Or.inl ho⟩
        · exact Or.inr ⟨hk, Option.map_eq_none_iff.mp hn, h⟩
      · cases h

theorem namesModule_of_names? (h : v.names? source = some r) : v.node.namesModule = true := by
  rcases names?_eq_some h with ⟨hn, -⟩ | ⟨hk, -⟩
  · exact hn
  · simp [Node.namesModule, hk]

end Visit

end UberPackage.TypeScript
