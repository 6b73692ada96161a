/-
  The references of a shaped tree.

  A walk gives the references of the nodes on its stack one after the other (`walk_append`), so a
  step lemma for one node and an induction over siblings say all about it.  What makes the
  induction more than a traversal is `export import x = require(…)`: its string can stand in the
  next sibling, which the walk enters later.  `Claims` therefore counts, besides the strings that
  siblings give, the one that a statement in front of them may have taken from the first.

  In a shaped tree the literals of all references are different outermost strings
  (`literals_apart`), and the statements they belong to are outside of strings (`statement_outer`).
-/
import Mathlib.Data.List.Perm.Subperm
import UberPackage.Proofs.TypeScript.Shape

namespace UberPackage.TypeScript

open Node

variable {source : Bytes} {cs : List Char}

/-! ## Walks, node by node -/

theorem walk_append (a b : List Visit) : walk source (a ++ b) = walk source a ++ walk source b := by
  induction a using walk.induct source with
  | case1 => rw [walk, List.nil_append, List.nil_append]
  | case2 v rest r hs ih =>
    rw [List.cons_append, walk, walk, hs]
    exact congrArg (r :: ·) ih
  | case3 v rest hs ih =>
    rw [List.cons_append, walk, walk, hs]
    exact ih
  | case4 v rest hs ih =>
    rw [List.cons_append, walk, walk, hs]
    dsimp only
    rw [← List.append_assoc]
    exact ih

theorem walk_cons (v : Visit) (rest : List Visit) :
    walk source (v :: rest) = walk source [v] ++ walk source rest := walk_append [v] rest

theorem mem_walk {r : Reference} {stack : List Visit} :
    r ∈ walk source stack ↔ ∃ v ∈ stack, r ∈ walk source [v] := by
  induction stack with
  | nil => simp [walk]
  | cons v stack ih => rw [walk_cons, List.mem_append, ih, List.exists_mem_cons_iff]

theorem walk_of_take {v : Visit} {r : Reference} (h : v.step source = .take r) :
    walk source [v] = [r] := by
  rw [walk, h]
  dsimp only
  rw [walk]

theorem walk_of_pass {v : Visit} (h : v.step source = .pass) : walk source [v] = [] := by
  rw [walk, h]
  dsimp only
  rw [walk]

theorem walk_of_enter {v : Visit} (h : v.step source = .enter) :
    walk source [v] = walk source v.children := by
  rw [walk, h, List.append_nil]

theorem mem_ofSiblings {p : Node} {ns : List Node} {v : Visit} (h : v ∈ Visit.ofSiblings p ns) :
    v.node ∈ ns ∧ v.parent = some p ∧ ∀ n ∈ v.after, n ∈ ns := by
  induction ns with
  | nil => exact absurd h List.not_mem_nil
  | cons n ns ih =>
    rcases List.mem_cons.mp h with rfl | h
    · exact ⟨List.mem_cons_self, rfl, fun m hm => List.mem_cons_of_mem _ hm⟩
    · obtain ⟨hn, hp, ha⟩ := ih h
      exact ⟨List.mem_cons_of_mem _ hn, hp, fun m hm => List.mem_cons_of_mem _ (ha m hm)⟩

/-! ## What a step can give -/

theorem enclosedString?_eq_some {n s : Node} (h : enclosedString? n = some s) :
    n.isPhrase .parenthesizedExpression = true ∧ n.namedChildren = [s] ∧
      s.isPhrase .string = true := by
  rw [enclosedString?] at h
  split at h
  · next hp =>
    split at h
    · next t ht =>
      split at h
      · next hs =>
        cases h
        exact ⟨hp, ht, hs⟩
      · exact absurd h (by simp)
    · exact absurd h (by simp)
  · exact absurd h (by simp)

/-- The string of a parenthesized one, in the node or in its first child. -/
theorem parenthesizedString?_eq_some {n s : Node} (h : parenthesizedString? n = some s) :
    (n.isPhrase .parenthesizedExpression = true ∧ n.namedChildren = [s] ∧
        s.isPhrase .string = true) ∨
      ((n.kind = .phrase .expressionStatement ∨ n.kind = .error) ∧
        ∃ c rest, n.namedChildren = c :: rest ∧ c.isPhrase .parenthesizedExpression = true ∧
          c.namedChildren = [s] ∧ s.isPhrase .string = true) := by
  unfold parenthesizedString? at h
  split at h
  · next c rest hk hc => exact Or.inr ⟨Or.inl hk, c, rest, hc, enclosedString?_eq_some h⟩
  · next c rest hk hc => exact Or.inr ⟨Or.inr hk, c, rest, hc, enclosedString?_eq_some h⟩
  · exact Or.inl (enclosedString?_eq_some h)

/-- The string that a statement in front of a node may take from it, or the node itself if it is
a string. -/
def claimed? (n : Node) : Option Node :=
  if n.isPhrase .string then some n else parenthesizedString? n

theorem claimed?_of_parenthesized {n s : Node} (h : parenthesizedString? n = some s) :
    n.isPhrase .string = false ∧ claimed? n = some s := by
  have hn : n.isPhrase .string = false := by
    rcases parenthesizedString?_eq_some h with ⟨hp, -⟩ | ⟨hk | hk, -⟩
    · rw [isPhrase, beq_iff_eq] at hp
      rw [isPhrase, hp]
      rfl
    · rw [isPhrase, hk]
      rfl
    · rw [isPhrase, hk]
      rfl
  exact ⟨hn, by rw [claimed?, hn]; exact h⟩

theorem find?_named {n c : Node} {rest : List Node} (h : n.namedChildren = c :: rest) :
    n.children.find? named = some c := by
  rw [← List.head?_filter]
  exact congrArg List.head? h

/-- A parenthesized string is claimed from the first named child. -/
theorem claimed?_of_child {n s : Node} (h : parenthesizedString? n = some s) :
    ∃ c, n.children.find? named = some c ∧ claimed? c = some s := by
  rcases parenthesizedString?_eq_some h with ⟨-, hc, hs⟩ | ⟨-, c, rest, hc, hp, hcs, hs⟩
  · exact ⟨s, find?_named hc, by rw [claimed?, if_pos hs]⟩
  · refine ⟨c, find?_named hc, ?_⟩
    have hpc : parenthesizedString? c = some s := by
      have hk : c.kind = .phrase .parenthesizedExpression := by simpa [isPhrase] using hp
      have hstring : enclosedString? c = some s := by
        rw [enclosedString?, if_pos hp, hcs]
        exact if_pos hs
      unfold parenthesizedString?
      rw [hk]
      exact hstring
    exact (claimed?_of_parenthesized hpc).2

/-- Where a reference is found at a node. -/
inductive Visit.Gives (v : Visit) (r : Reference) : Prop where
  /-- The string is a child. -/
  | child (hs : r.literal.isPhrase .string = true) (hc : r.literal ∈ v.node.children)
      (owner : r.statement = v.node ∨ v.parent = some r.statement)
  /-- The string is parenthesized in a child. -/
  | within (n : Node) (hc : n ∈ v.node.children) (hs : parenthesizedString? n = some r.literal)
      (owner : r.statement = v.node)
  /-- The string is parenthesized in the next sibling. -/
  | behind (hn : v.nextNamed? = some r.statement)
      (hs : parenthesizedString? r.statement = some r.literal) (named : v.node.named = true)

theorem mem_of_source? {n s : Node} (h : n.source? = some s) : s ∈ n.children :=
  List.mem_of_find?_eq_some h

theorem nextNamed?_mem {v : Visit} {n : Node} (h : v.nextNamed? = some n) : n ∈ v.after :=
  List.mem_of_find?_eq_some h

theorem gives_of_exportedRequire? {v : Visit} {r : Reference} (hn : v.node.named = true)
    (h : exportedRequire? source v = some r) : v.Gives r := by
  unfold exportedRequire? at h
  simp only [Option.bind_eq_bind, Option.bind_eq_some_iff] at h
  obtain ⟨w, hw, last, -, h⟩ := h
  split at h
  · exact absurd h (by simp)
  · rcases Option.or_eq_some_iff.mp h with h | ⟨-, h⟩
    · obtain ⟨n, hnext, h⟩ := Option.bind_eq_some_iff.mp h
      obtain ⟨s, hs, rfl⟩ := Option.map_eq_some_iff.mp h
      obtain ⟨-, -, ha⟩ := mem_ofSiblings (List.mem_of_find?_eq_some hw)
      exact .within n (ha n (nextNamed?_mem hnext)) hs rfl
    · obtain ⟨n, hnext, h⟩ := Option.bind_eq_some_iff.mp h
      obtain ⟨s, hs, rfl⟩ := Option.map_eq_some_iff.mp h
      exact .behind hnext hs hn

/-- A reference is found at a statement or clause that names a module. -/
theorem gives_of_take {v : Visit} {r : Reference} (hv : v.node.Shaped cs)
    (h : v.step source = .take r) : v.node.namesModule = true ∧ v.Gives r := by
  have hstring : ∀ s, v.node.source?.filter (·.isPhrase .string) = some s →
      s.isPhrase .string = true ∧ s ∈ v.node.children := fun s hs => by
    obtain ⟨hs, hp⟩ := Option.filter_eq_some_iff.mp hs
    exact ⟨hp, mem_of_source? hs⟩
  unfold Visit.step at h
  dsimp only at h
  split at h
  · exact absurd h (by simp)
  · next hk =>
    split at h
    · next s hs =>
      cases h
      exact ⟨by simp [namesModule, isPhrase,
        hk], .child (hstring s hs).1 (hstring s hs).2 (Or.inl rfl)⟩
    · exact absurd h (by simp)
  · next hk =>
    have hnames : v.node.namesModule = true := by simp [namesModule, isPhrase, hk]
    split at h
    · next s hs =>
      cases h
      exact ⟨hnames, .child (hstring s hs).1 (hstring s hs).2 (Or.inl rfl)⟩
    · split at h
      · next r' hr =>
        cases h
        exact ⟨hnames, gives_of_exportedRequire? (by rw [named, hk]; rfl) hr⟩
      · exact absurd h (by simp)
  · next hk =>
    split at h
    · next s p hs hp =>
      cases h
      have hstr := hv.clauses v.node (.here _) (by simp [isPhrase, hk]) s hs
      exact ⟨by simp [namesModule, isPhrase, hk], .child hstr (mem_of_source? hs) (Or.inr hp)⟩
    · exact absurd h (by simp)
  · exact absurd h (by simp)

theorem not_string_of_namesModule {n : Node} (h : n.namesModule = true) :
    n.isPhrase .string = false := by
  cases hs : n.isPhrase .string with
  | false => rfl
  | true =>
    rw [isPhrase, beq_iff_eq] at hs
    simp [namesModule, isPhrase, hs] at h

/-- Nothing is found where no statement is. -/
theorem walk_of_plain {v : Visit} (hv : v.node.Shaped cs)
    (h : ∀ m, v.node.Occurs m → m.namesModule = false) : walk source [v] = [] := by
  obtain ⟨n, p, after⟩ := v
  induction n using induct generalizing p after with
  | step n ih =>
    cases hs : Visit.step source ⟨n, p, after⟩ with
    | take r =>
      have hn := (gives_of_take hv hs).1
      rw [h n (.here n)] at hn
      exact absurd hn (by simp)
    | pass => exact walk_of_pass hs
    | enter =>
      rw [walk_of_enter hs, List.eq_nil_iff_forall_not_mem]
      intro r hr
      obtain ⟨w, hw, hr⟩ := mem_walk.mp hr
      have hc := (mem_ofSiblings hw).1
      rw [ih w.node hc w.parent w.after (hv.child hc) fun m hm => h m (.inside hc hm)] at hr
      exact absurd hr List.not_mem_nil

theorem walk_of_string {v : Visit} (hv : v.node.Shaped cs) (h : v.node.isPhrase .string = true) :
    walk source [v] = [] :=
  walk_of_plain hv (hv.plain v.node (.here _) h)

/-! ## Literals -/

/-- The literals of the references on a stack. -/
def literals (source : Bytes) (stack : List Visit) : List Node :=
  (walk source stack).map Reference.literal

theorem literals_cons (v : Visit) (rest : List Visit) :
    literals source (v :: rest) = literals source [v] ++ literals source rest := by
  rw [literals, walk_cons, List.map_append]
  rfl

/-- A node gives strings of its own, or one of the next named sibling; and if a string of its own is
claimed from it, it gives others. -/
structure Claims (source : Bytes) (n : Node) : Prop where
  own : ∀ p after, (literals source [⟨n, p, after⟩]).Subperm n.strings ∨
    (n.named = true ∧ ∃ m s, after.find? Node.named = some m ∧ claimed? m = some s ∧
      literals source [⟨n, p, after⟩] = [s])
  rest : ∀ s, claimed? n = some s → ∀ p after,
    (s :: literals source [⟨n, p, after⟩]).Subperm n.strings

/-- Siblings give different strings, also from one that a statement in front of them has claimed. -/
theorem literals_siblings (p : Node) (ns : List Node) (h : ∀ n ∈ ns, Claims source n) :
    (literals source (Visit.ofSiblings p ns)).Subperm (ns.flatMap strings) ∧
      ∀ m s, ns.find? Node.named = some m → claimed? m = some s →
        (s :: literals source (Visit.ofSiblings p ns)).Subperm (ns.flatMap strings) := by
  induction ns with
  | nil => exact ⟨by rw [Visit.ofSiblings, literals, walk]; exact List.nil_subperm, by simp⟩
  | cons n ns ih =>
    obtain ⟨hplain, hclaimed⟩ := ih fun m hm => h m (List.mem_cons_of_mem _ hm)
    have hn := h n List.mem_cons_self
    rw [Visit.ofSiblings, literals_cons, List.flatMap_cons]
    refine ⟨?_, fun m s hm hs => ?_⟩
    · rcases hn.own (some p) ns with hown | ⟨-, m, s, hm, hs, hown⟩
      · exact hown.append hplain
      · rw [hown]
        exact (hclaimed m s hm hs).trans (List.sublist_append_right _ _).subperm
    · rw [List.find?_cons] at hm
      split at hm
      · cases hm
        exact (hn.rest s hs (some p) ns).append hplain
      · next hnamed =>
        rcases hn.own (some p) ns with hown | ⟨hnamed', -⟩
        · exact List.perm_middle.symm.subperm.trans (hown.append (hclaimed m s hm hs))
        · exact absurd hnamed' (by simp [hnamed])

theorem singleton_subperm_strings {n c s : Node} (hn : n.isPhrase .string = false)
    (hc : c ∈ n.children) (hs : [s].Subperm c.strings) : [s].Subperm n.strings := by
  rw [strings_of_not_string hn]
  exact List.singleton_subperm_iff.mpr
    (List.mem_flatMap.mpr ⟨c, hc, List.singleton_subperm_iff.mp hs⟩)

theorem singleton_subperm_of_claims {n s : Node} (h : Claims source n) (hs : claimed? n = some s) :
    [s].Subperm n.strings := by
  have hrest := h.rest s hs none []
  exact List.singleton_subperm_iff.mpr (hrest.subset List.mem_cons_self)

theorem step_of_parenthesized {n s : Node} (h : parenthesizedString? n = some s) (p : Option Node)
    (after : List Node) :
    Visit.step source ⟨n, p, after⟩ = .enter ∨ Visit.step source ⟨n, p, after⟩ = .pass := by
  unfold Visit.step
  rcases parenthesizedString?_eq_some h with ⟨hp, -⟩ | ⟨hk | hk, -⟩
  · have hk : n.kind = .phrase .parenthesizedExpression := by simpa [isPhrase] using hp
    rw [hk]
    exact Or.inl rfl
  · rw [hk]
    exact Or.inl rfl
  · rw [hk]
    exact Or.inr rfl

theorem claims (n : Node) (hn : n.Shaped cs) : Claims source n := by
  induction n using induct with
  | step n ih =>
    have hch : ∀ c ∈ n.children, Claims source c := fun c hc => ih c hc (hn.child hc)
    have hsib := literals_siblings n n.children hch
    cases hstr : n.isPhrase .string with
    | true =>
      have hwalk : ∀ p after, literals source [⟨n, p, after⟩] = [] := fun p after => by
        rw [literals, walk_of_string hn hstr, List.map_nil]
      refine ⟨fun p after => Or.inl ?_, fun s hs p after => ?_⟩
      · rw [hwalk]
        exact List.nil_subperm
      · rw [claimed?, if_pos hstr] at hs
        cases hs
        rw [hwalk, strings_of_string hstr]
    | false =>
      refine ⟨fun p after => ?_, fun s hs p after => ?_⟩
      · cases hs : Visit.step source ⟨n, p, after⟩ with
        | take r =>
          rw [literals, walk_of_take hs]
          cases (gives_of_take hn hs).2 with
          | child hs hc =>
            refine Or.inl (singleton_subperm_strings hstr hc ?_)
            rw [strings_of_string hs]
          | within m hm hs =>
            have hclaimed := (claimed?_of_parenthesized hs).2
            exact Or.inl (singleton_subperm_strings hstr hm
              (singleton_subperm_of_claims (hch m hm) hclaimed))
          | behind hnext hs hnamed =>
            exact Or.inr ⟨hnamed, r.statement, r.literal, hnext,
              (claimed?_of_parenthesized hs).2, rfl⟩
        | pass =>
          rw [literals, walk_of_pass hs]
          exact Or.inl List.nil_subperm
        | enter =>
          rw [literals, walk_of_enter hs, strings_of_not_string hstr]
          exact Or.inl hsib.1
      · rw [claimed?, hstr] at hs
        obtain ⟨c, hc, hcs⟩ := claimed?_of_child hs
        have hrest := hsib.2 c s hc hcs
        rw [strings_of_not_string hstr]
        rcases @step_of_parenthesized source _ _ hs p after with hstep | hstep
        · rw [literals, walk_of_enter hstep]
          exact hrest
        · rw [literals, walk_of_pass hstep]
          exact List.singleton_subperm_iff.mpr (hrest.subset List.mem_cons_self)

/-! ## The references of a tree -/

/-- The literals of a tree's references are different outermost strings. -/
theorem literals_subperm {root : Node} (h : root.Shaped cs) :
    ((moduleReferences source root).map Reference.literal).Subperm root.strings := by
  rcases (@claims source cs root h).own none [] with hown | ⟨-, m, s, hm, -⟩
  · exact hown
  · exact absurd hm (by simp)

theorem literal_string {root : Node} (h : root.Shaped cs) {r : Reference}
    (hr : r ∈ moduleReferences source root) :
    r.literal ∈ root.strings ∧ root.Occurs r.literal ∧ r.literal.isPhrase .string = true := by
  have hm := (literals_subperm h).subset (List.mem_map_of_mem hr)
  exact ⟨hm, occurs_of_mem_strings hm⟩

/-- Literals of different references stand apart. -/
theorem literals_apart {root : Node} (h : root.Shaped cs) :
    (moduleReferences source root).Pairwise fun r t => r.literal.Apart t.literal := by
  have hs : root.strings.Pairwise Apart := h.strings_ordered.imp fun h => Or.inl h
  obtain ⟨l, hl, hsub⟩ := @literals_subperm source cs root h
  have hp := (hl.pairwise_iff fun h => Or.symm h).mp (hs.sublist hsub)
  exact List.pairwise_map.mp hp

/-- What a reference belongs to: a node outside of strings, in the node, around it or next to it. -/
theorem statement_of_mem_walk {v : Visit} (hv : v.node.Shaped cs) {r : Reference}
    (hr : r ∈ walk source [v]) :
    r.statement ∈ v.node.outer ∨ v.parent = some r.statement ∨
      (r.statement ∈ v.after ∧ r.statement.isPhrase .string = false) := by
  obtain ⟨n, p, after⟩ := v
  induction n using induct generalizing p after with
  | step n ih =>
    cases hs : Visit.step source ⟨n, p, after⟩ with
    | take t =>
      rw [walk_of_take hs, List.mem_singleton] at hr
      subst hr
      obtain ⟨hnames, hgives⟩ := gives_of_take hv hs
      have hself : n ∈ n.outer := by
        rw [outer_of_not_string (not_string_of_namesModule hnames)]
        exact List.mem_cons_self
      cases hgives with
      | child _ _ howner =>
        rcases howner with howner | howner
        · exact Or.inl (by rw [howner]; exact hself)
        · exact Or.inr (Or.inl howner)
      | within _ _ _ howner => exact Or.inl (by rw [howner]; exact hself)
      | behind hnext hs _ =>
        exact Or.inr (Or.inr ⟨nextNamed?_mem hnext, (claimed?_of_parenthesized hs).1⟩)
    | pass =>
      rw [walk_of_pass hs] at hr
      exact absurd hr List.not_mem_nil
    | enter =>
      have hstr : n.isPhrase .string = false := by
        cases hstr : n.isPhrase .string with
        | false => rfl
        | true =>
          rw [walk_of_string hv hstr] at hr
          exact absurd hr List.not_mem_nil
      rw [walk_of_enter hs] at hr
      obtain ⟨w, hw, hr⟩ := mem_walk.mp hr
      obtain ⟨hc, hp, ha⟩ := mem_ofSiblings hw
      refine Or.inl ?_
      rw [outer_of_not_string hstr, List.mem_cons, List.mem_flatMap]
      rcases ih w.node hc w.parent w.after (hv.child hc) hr with ho | ho | ⟨ho, hos⟩
      · exact Or.inr ⟨w.node, hc, ho⟩
      · rw [hp] at ho
        exact Or.inl (Option.some.inj ho).symm
      · refine Or.inr ⟨r.statement, ha _ ho, ?_⟩
        rw [outer_of_not_string hos]
        exact List.mem_cons_self

/-- A tree's references belong to nodes outside of strings. -/
theorem statement_outer {root : Node} (h : root.Shaped cs) {r : Reference}
    (hr : r ∈ moduleReferences source root) : r.statement ∈ root.outer := by
  rcases statement_of_mem_walk h hr with ho | ho | ⟨ho, -⟩
  · exact ho
  · exact absurd ho (by simp)
  · exact absurd ho List.not_mem_nil

end UberPackage.TypeScript
