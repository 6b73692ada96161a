/-
  The order of references.

  In a tree whose ranges nest (`Node.Nested`) the literals of the references follow one another
  (`spread_moduleReferences`), and begin one after the other unless one of them is empty
  (`moduleReferences_ordered`, `moduleReferences_stalls`).  An exported alias makes this more than a
  traversal: its argument can stand in the next sibling, which is read later.  `Node.AllAdvance`
  therefore says, besides that the literals of siblings follow one another, that they come after the
  one that a statement in front may have claimed from the first.

  A place in the text is in one chain of nodes (`Node.Ranged.occurs_child`), so the nodes around a
  literal are those that reading has come through, and an error node can only be the one in which an
  exported alias has found its argument (`inspected_of_error`).
-/
import UberPackage.Proofs.TypeScript.Preorder

namespace UberPackage.TypeScript

open Node

variable {source : Bytes}

namespace Node

/-- Ranges nest, strings hold no statements, and tokens without a name of their own have no
children. -/
structure Nested (root : Node) : Prop extends Ranged root where
  plain : ∀ n, root.Occurs n → n.isPhrase .string = true → ∀ m, n.Occurs m → m.namesModule = false
  leaves : ∀ n, root.Occurs n → n.named = false → n.children = []

/-- Besides, what can name a module is not empty. -/
structure WellNested (root : Node) : Prop extends Nested root where
  solid : ∀ n, root.Occurs n → n.isPhrase .string = true ∨ n.label.role = some .source →
    n.start < n.stop

theorem Ranged.sub {n m : Node} (h : n.Ranged) (hm : n.Occurs m) : m.Ranged where
  forward l hl := h.forward l (hm.trans hl)
  nested l hl := h.nested l (hm.trans hl)
  ordered l hl := h.ordered l (hm.trans hl)

theorem Nested.sub {n m : Node} (h : n.Nested) (hm : n.Occurs m) : m.Nested where
  toRanged := h.toRanged.sub hm
  plain l hl := h.plain l (hm.trans hl)
  leaves l hl := h.leaves l (hm.trans hl)

/-- What a tree whose ranges nest has at one node. -/
def isNestedAt (n : Node) : Bool :=
  n.start ≤ n.stop && n.children.all (fun c => n.start ≤ c.start && c.stop ≤ n.stop) &&
    decide (n.children.Pairwise fun c d => c.stop ≤ d.start) &&
    (!n.isPhrase .string || n.nodes.all (!namesModule ·)) && (n.named || n.children.isEmpty)

/-- What can name a module is not empty, at one node. -/
def isSolidAt (n : Node) : Bool :=
  !(n.isPhrase .string || n.label.role == some .source) || n.start < n.stop

theorem all_of_check {root : Node} {p : Node → Bool} (h : root.nodes.all p = true) {n : Node}
    (hn : root.Occurs n) : p n = true :=
  List.all_eq_true.mp h n (mem_nodes hn)

/-- Whether the ranges of a tree nest can be checked node by node. -/
theorem nested_of_check {root : Node} (h : root.nodes.all isNestedAt = true) : root.Nested := by
  have hat : ∀ n, root.Occurs n → isNestedAt n = true := fun n => all_of_check h
  simp only [isNestedAt, Bool.and_eq_true, decide_eq_true_eq, Bool.or_eq_true,
    Bool.not_eq_true', List.all_eq_true, List.isEmpty_iff] at hat
  exact {
    forward := fun n hn => (hat n hn).1.1.1.1
    nested := fun n hn => (hat n hn).1.1.1.2
    ordered := fun n hn => (hat n hn).1.1.2
    plain := fun n hn hs m hm => ((hat n hn).1.2.resolve_left (by simp [hs])) m (mem_nodes hm)
    leaves := fun n hn hno => (hat n hn).2.resolve_left (by simp [hno]) }

/-- And so can whether it is well-nested. -/
theorem wellNested_of_check {root : Node} (h : root.nodes.all isNestedAt = true)
    (hsolid : root.nodes.all isSolidAt = true) : root.WellNested where
  toNested := nested_of_check h
  solid n hn hs := by
    have hat := all_of_check hsolid hn
    rw [isSolidAt, Bool.or_eq_true, decide_eq_true_eq] at hat
    refine hat.resolve_left fun hno => ?_
    rcases hs with hs | hs
    · simp [hs] at hno
    · simp [hs] at hno

theorem occurs_of_child {n c : Node} (h : c ∈ n.children) : n.Occurs c := .inside h (.here c)

/-! ## The nodes around a place -/

theorem sizeOf_of_occurs {n m : Node} (h : n.Occurs m) : sizeOf m ≤ sizeOf n := by
  induction h with
  | here => exact Nat.le_refl _
  | inside hc _ ih =>
    have := sizeOf_child hc
    omega

theorem not_occurs_parent {n c : Node} (h : c ∈ n.children) : ¬ c.Occurs n := fun ho => by
  have hle := sizeOf_of_occurs ho
  have hlt := sizeOf_child h
  omega

/-- What is around a place is the whole or in the child in which the place is. -/
theorem Ranged.occurs_child {n c e x : Node} (h : n.Ranged) (hx : x.start < x.stop)
    (hc : c ∈ n.children) (hcx : c.Occurs x) (he : n.Occurs e) (hex : e.Occurs x) :
    e = n ∨ c.Occurs e := by
  cases he with
  | here => exact Or.inl rfl
  | @inside _ d _ hd hde =>
    refine Or.inr ?_
    by_cases hcd : c = d
    · rwa [hcd]
    · have hxc := (h.child hc).within hcx
      have hxd := (h.child hd).within (hde.trans hex)
      rcases h.children_apart hc hd hcd with hsep | hsep
      · omega
      · omega

end Node

/-! ## Literals follow one another -/

theorem mem_of_namedChildren {n c : Node} {rest : List Node} (h : n.namedChildren = c :: rest) :
    c ∈ n.children := by
  have hc : c ∈ n.namedChildren := by
    rw [h]
    exact List.mem_cons_self
  exact (List.mem_filter.mp hc).1

theorem occurs_of_parenthesized {n s : Node} (h : parenthesizedString? n = some s) :
    n.Occurs s ∧ s.isPhrase .string = true := by
  rcases parenthesizedString?_eq_some h with ⟨-, hc, hs⟩ | ⟨-, c, rest, hc, -, hcs, hs⟩
  · exact ⟨occurs_of_child (mem_of_namedChildren hc), hs⟩
  · exact ⟨.inside (mem_of_namedChildren hc) (occurs_of_child (mem_of_namedChildren hcs)), hs⟩

theorem occurs_of_claimed {n s : Node} (h : claimed? n = some s) : n.Occurs s := by
  rw [claimed?] at h
  split at h
  · rw [Option.some.injEq] at h
    rw [h]
    exact .here s
  · exact (occurs_of_parenthesized h).1

/-- What a statement in front may take a string from names nothing itself. -/
theorem names?_of_claimed {n s : Node} (h : claimed? n = some s) (p : Option Node)
    (after : List Node) :
    Visit.names? source ⟨n, p, after⟩ = none := by
  have hk : n.kind = .phrase .string ∨ n.kind = .phrase .parenthesizedExpression ∨
      n.kind = .phrase .expressionStatement ∨ n.kind = .error := by
    rw [claimed?] at h
    split at h
    · next hs => exact Or.inl (by simpa [isPhrase] using hs)
    · rcases parenthesizedString?_eq_some h with ⟨hp, -⟩ | ⟨hk, -⟩
      · exact Or.inr (Or.inl (by simpa [isPhrase] using hp))
      · exact Or.inr (Or.inr hk)
  rw [Visit.names?, isPhrase, isPhrase, isPhrase]
  rcases hk with hk | hk | hk | hk <;> rw [hk] <;> rfl

theorem Visit.Reaches.occurs_node {v w : Visit} (h : v.Reaches source w) :
    v.node.Occurs w.node := by
  induction h with
  | here => exact .here _
  | child _ _ hu ih => exact ih.trans (occurs_of_child (mem_ofSiblings hu).1)

/-- Nothing is found where no statement is. -/
theorem preorder_of_plain {n : Node} (h : ∀ m, n.Occurs m → m.namesModule = false) (p : Option Node)
    (after : List Node) : n.preorder source p after = [] := by
  refine List.eq_nil_iff_forall_not_mem.mpr fun r hr => ?_
  obtain ⟨w, hw, hr⟩ := (mem_preorder (v := ⟨n, p, after⟩)).mp hr
  have hnames := Visit.namesModule_of_names? hr
  rw [h w.node hw.occurs_node] at hnames
  cases hnames

theorem preorder_of_anonymous {n : Node} (h : n.Nested) (hn : n.named = false) (p : Option Node)
    (after : List Node) : n.preorder source p after = [] := by
  refine preorder_of_plain (fun m hm => ?_) p after
  cases hm with
  | here =>
    rw [Node.named] at hn
    cases hk : n.kind with
    | phrase q => rw [hk] at hn; cases hn
    | token t => simp [namesModule, isPhrase, hk]
    | comment => rw [hk] at hn; cases hn
    | error => rw [hk] at hn; cases hn
  | inside hc _ =>
    rw [h.leaves n (.here n) hn] at hc
    exact absurd hc List.not_mem_nil

/-- A node that names nothing has no references, or those of its children. -/
theorem preorder_of_unnamed {n : Node} {p : Option Node} {after : List Node}
    (h : Visit.names? source ⟨n, p, after⟩ = none) :
    n.preorder source p after = [] ∨ n.preorder source p after =
      preorderAll source n n.children := by
  cases hc : Visit.isCut source ⟨n, p, after⟩ with
  | true => exact Or.inl (Visit.preorder_of_cut h hc)
  | false =>
    rw [preorderAll_eq]
    exact Or.inr (Visit.preorder_of_not_cut hc)

/-- What a node names stands in it, or is claimed from the next named sibling. -/
theorem literal_of_names? {n : Node} {p : Option Node} {after : List Node} {r : Reference}
    (h : Visit.names? source ⟨n, p, after⟩ = some r) :
    n.Occurs r.literal ∨ ∃ m, after.find? Node.named = some m ∧ claimed? m = some r.literal := by
  rcases Visit.names?_eq_some h with ⟨-, hs, -⟩ | ⟨-, -, hrec⟩
  · exact Or.inl (occurs_of_child (mem_of_source? hs))
  · obtain ⟨-, m, hm, hs⟩ := Visit.recovered?_eq_some hrec
    rcases Visit.mem_of_mem_inspected hm with ⟨-, hc⟩ | ⟨-, hnext⟩
    · exact Or.inl (.inside hc (occurs_of_parenthesized hs).1)
    · exact Or.inr ⟨m, hnext, (claimed?_of_parenthesized hs).2⟩

/-- The literal of one reference ends before that of another begins. -/
def Reference.Before (r t : Reference) : Prop := r.literal.stop ≤ t.literal.start

/-- The references follow one another in a node. -/
structure Node.Spread (n : Node) (rs : List Reference) : Prop where
  inside : ∀ r ∈ rs, n.Occurs r.literal
  ordered : rs.Pairwise Reference.Before

theorem Node.Spread.nil (n : Node) : n.Spread [] where
  inside _ hr := absurd hr List.not_mem_nil
  ordered := .nil

theorem Node.Spread.single {n : Node} {r : Reference} (h : n.Occurs r.literal) : n.Spread [r] where
  inside t ht := by
    rw [List.mem_singleton.mp ht]
    exact h
  ordered := List.pairwise_singleton _ _

/-- The references of a node follow one another in it, or the only one is taken from the next named
sibling; and if a string of the node's own is claimed from it, its references come after that. -/
structure Node.Advances (source : Bytes) (n : Node) : Prop where
  own : ∀ p after, n.Spread (n.preorder source p after) ∨
    ∃ m r, after.find? Node.named = some m ∧ claimed? m = some r.literal ∧
      n.preorder source p after = [r]
  rest : ∀ s, claimed? n = some s →
    ∀ p after, ∀ r ∈ n.preorder source p after, s.stop ≤ r.literal.start

/-- The references of siblings follow one another, also on one that a statement in front of them has
claimed. -/
structure Node.AllAdvance (source : Bytes) (p : Node) (ns : List Node) : Prop where
  inside : ∀ r ∈ preorderAll source p ns, ∃ n ∈ ns, n.Occurs r.literal
  ordered : (preorderAll source p ns).Pairwise Reference.Before
  rest : ∀ m s, ns.find? Node.named = some m → claimed? m = some s →
    ∀ r ∈ preorderAll source p ns, s.stop ≤ r.literal.start

theorem Node.AllAdvance.nil (source : Bytes) (p : Node) : AllAdvance source p [] where
  inside r hr := by
    rw [preorderAll] at hr
    exact absurd hr List.not_mem_nil
  ordered := by
    rw [preorderAll]
    exact .nil
  rest m s hm := by cases hm

namespace Node.AllAdvance

variable {p n : Node} {ns : List Node}

/-- What ends in a node ends before the references of the siblings behind it. -/
theorem after (h : AllAdvance source p ns) (hn : n.Ranged) (hns : ∀ m ∈ ns, m.Ranged)
    (hfirst : ∀ m ∈ ns, n.stop ≤ m.start) {x : Node} (hx : n.Occurs x) :
    ∀ r ∈ preorderAll source p ns, x.stop ≤ r.literal.start := by
  intro r hr
  obtain ⟨m, hm, hmr⟩ := h.inside r hr
  have hxn := hn.within hx
  have hnm := hfirst m hm
  have hrm := (hns m hm).within hmr
  omega

/-- A sibling in front of others. -/
theorem cons (h : AllAdvance source p ns) (hadv : n.Advances source) (hn : n.Nested)
    (hns : ∀ m ∈ ns, m.Ranged) (hfirst : ∀ m ∈ ns, n.stop ≤ m.start) :
    AllAdvance source p (n :: ns) := by
  have hafter : ∀ {x}, n.Occurs x → ∀ r ∈ preorderAll source p ns, x.stop ≤ r.literal.start :=
    h.after hn.toRanged hns hfirst
  refine ⟨fun r hr => ?_, ?_, fun m s hm hs r hr => ?_⟩
  · rw [preorderAll] at hr
    rcases List.mem_append.mp hr with hr | hr
    · rcases hadv.own (some p) ns with hown | ⟨m, t, hm, ht, hown⟩
      · exact ⟨n, List.mem_cons_self, hown.inside r hr⟩
      · rw [hown, List.mem_singleton] at hr
        subst hr
        exact ⟨m, List.mem_cons_of_mem _ (List.mem_of_find?_eq_some hm), occurs_of_claimed ht⟩
    · obtain ⟨m, hm, hmr⟩ := h.inside r hr
      exact ⟨m, List.mem_cons_of_mem _ hm, hmr⟩
  · rw [preorderAll]
    rcases hadv.own (some p) ns with hown | ⟨m, r, hm, hr, hown⟩
    · exact List.pairwise_append.mpr ⟨hown.ordered, h.ordered,
        fun r hr => hafter (hown.inside r hr)⟩
    · rw [hown, List.singleton_append]
      exact List.pairwise_cons.mpr ⟨h.rest m r.literal hm hr, h.ordered⟩
  · rw [preorderAll] at hr
    rw [List.find?_cons] at hm
    split at hm
    · cases hm
      rcases List.mem_append.mp hr with hr | hr
      · exact hadv.rest s hs (some p) ns r hr
      · exact hafter (occurs_of_claimed hs) r hr
    · next hnamed =>
      rw [preorder_of_anonymous hn hnamed, List.nil_append] at hr
      exact h.rest m s hm hs r hr

end Node.AllAdvance

theorem allAdvance (source : Bytes) (p : Node) (ns : List Node) (hnest : ∀ n ∈ ns, n.Nested)
    (hord : ns.Pairwise fun c d => c.stop ≤ d.start) (h : ∀ n ∈ ns, n.Advances source) :
    AllAdvance source p ns := by
  induction ns with
  | nil => exact .nil source p
  | cons n ns ih =>
    obtain ⟨hfirst, hord⟩ := List.pairwise_cons.mp hord
    obtain ⟨hn, hns⟩ := List.forall_mem_cons.mp hnest
    obtain ⟨hadv, h⟩ := List.forall_mem_cons.mp h
    exact (ih hns hord h).cons hadv hn (fun m hm => (hns m hm).toRanged) hfirst

theorem advances (source : Bytes) (n : Node) (hn : n.Nested) : n.Advances source := by
  induction n using induct with
  | step n ih =>
    have hsub : ∀ c ∈ n.children, c.Nested := fun c hc => hn.sub (occurs_of_child hc)
    have hall : AllAdvance source n n.children :=
      allAdvance source n n.children hsub (hn.ordered n (.here n)) fun c hc => ih c hc (hsub c hc)
    refine ⟨fun p after => ?_, fun s hs p after r hr => ?_⟩
    · cases hnames : Visit.names? source ⟨n, p, after⟩ with
      | some r =>
        have hone : n.preorder source p after = [r] := Visit.preorder_of_names? hnames
        rcases literal_of_names? hnames with ho | ⟨m, hm, hs⟩
        · rw [hone]
          exact Or.inl (.single ho)
        · exact Or.inr ⟨m, r, hm, hs, hone⟩
      | none =>
        refine Or.inl ?_
        rcases preorder_of_unnamed hnames with hnil | hchildren
        · rw [hnil]
          exact .nil n
        · rw [hchildren]
          refine ⟨fun r hr => ?_, hall.ordered⟩
          obtain ⟨c, hc, hcr⟩ := hall.inside r hr
          exact .inside hc hcr
    · rcases preorder_of_unnamed (names?_of_claimed hs p after) with hnil | hchildren
      · rw [hnil] at hr
        exact absurd hr List.not_mem_nil
      · cases hstr : n.isPhrase .string with
        | true =>
          rw [preorder_of_plain (hn.plain n (.here n) hstr)] at hr
          exact absurd hr List.not_mem_nil
        | false =>
          rw [claimed?, hstr] at hs
          obtain ⟨c, hc, hcs⟩ := claimed?_of_child hs
          rw [hchildren] at hr
          exact hall.rest c s hc hcs r hr

/-- The references of a tree follow one another in it. -/
theorem spread_moduleReferences {root : Node} (source : Bytes) (h : root.Nested) :
    root.Spread (moduleReferences source root) := by
  rw [moduleReferences_eq_preorder]
  rcases (advances source root h).own none [] with hown | ⟨m, r, hm, -⟩
  · exact hown
  · cases hm

/-! ## Literals, their statements, and errors around them -/

variable {root : Node} {r : Reference}

theorem role_of_source? {n s : Node} (h : n.source? = some s) : s.label.role = some .source := by
  have hrole := List.find?_some (p := fun c : Node => c.label.role == some .source) h
  exact beq_iff_eq.mp hrole

/-- The literal of a reference is not empty. -/
theorem literal_solid (h : root.WellNested) (hr : r ∈ moduleReferences source root) :
    r.literal.start < r.literal.stop := by
  refine h.solid r.literal ((spread_moduleReferences source h.toNested).inside r hr) ?_
  obtain ⟨v, -, hr⟩ := mem_moduleReferences_iff.mp hr
  rcases Visit.names?_eq_some hr with ⟨-, hs, -⟩ | ⟨-, -, hrec⟩
  · exact Or.inr (role_of_source? hs)
  · obtain ⟨-, n, -, hs⟩ := Visit.recovered?_eq_some hrec
    exact Or.inl (occurs_of_parenthesized hs).2

/-- What is inspected stands in the tree. -/
theorem Visit.Reaches.occurs_inspected {v : Visit} (hv : root.top.Reaches source v) {n owner : Node}
    (hn : (n, owner) ∈ v.inspected) : root.Occurs n := by
  rcases Visit.mem_of_mem_inspected hn with ⟨-, hc⟩ | ⟨-, hnext⟩
  · exact hv.occurs.1.trans (occurs_of_child hc)
  · obtain ⟨u, hu, rfl⟩ := hv.after (nextNamed?_mem hnext)
    exact hu.occurs.1

/-- The literal of a reference stands in the statement that the reference belongs to. -/
theorem statement_around (hr : r ∈ moduleReferences source root) :
    root.Occurs r.statement ∧ r.statement.Occurs r.literal := by
  obtain ⟨v, hv, hr⟩ := mem_moduleReferences_iff.mp hr
  obtain ⟨hnode, hparent⟩ := hv.occurs
  rcases Visit.names?_eq_some hr with ⟨-, hs, howner⟩ | ⟨-, -, hrec⟩
  · have hin := occurs_of_child (mem_of_source? hs)
    rcases howner with howner | howner
    · rw [howner]
      exact ⟨hnode, hin⟩
    · obtain ⟨hp, hc⟩ := hparent _ howner
      exact ⟨hp, .inside hc hin⟩
  · obtain ⟨-, n, hn, hs⟩ := Visit.recovered?_eq_some hrec
    have hin := (occurs_of_parenthesized hs).1
    rcases Visit.mem_of_mem_inspected hn with ⟨howner, hc⟩ | ⟨howner, -⟩
    · rw [howner]
      exact ⟨hnode, .inside hc hin⟩
    · rw [howner]
      exact ⟨hv.occurs_inspected hn, hin⟩

/-- The node stands below another. -/
def Node.Above (e x : Node) : Prop := ∃ c ∈ e.children, c.Occurs x

theorem Node.Above.occurs {e x : Node} (h : e.Above x) : e.Occurs x :=
  let ⟨_, hc, hx⟩ := h
  .inside hc hx

theorem Node.Above.not_occurs {e x : Node} (h : e.Above x) : ¬ x.Occurs e := fun ho => by
  obtain ⟨c, hc, hx⟩ := h
  exact not_occurs_parent hc (hx.trans ho)

/-- An error node around a place is in each node through which reading comes to the place. -/
theorem Visit.Reaches.error_inside (h : root.Ranged) {v : Visit}
    (hv : root.top.Reaches source v) {e x : Node} (hx : x.start < x.stop) (hvx : v.node.Occurs x)
    (he : root.Occurs e) (herr : e.kind = .error) (hex : e.Occurs x) : v.node.Occurs e := by
  induction hv with
  | here => exact he
  | @child w u hw hc hu ih =>
    have huw := (mem_ofSiblings hu).1
    have hwe := ih (.inside huw hvx)
    rcases (h.sub hw.occurs.1).occurs_child hx huw hvx hwe hex with rfl | hue
    · simp [Visit.isCut, herr] at hc
    · exact hue

/-- An error node around a parenthesized string is the node in which it is looked for. -/
theorem eq_of_error_around {n s e : Node} (h : n.Ranged) (hx : s.start < s.stop)
    (hs : parenthesizedString? n = some s) (hne : n.Occurs e) (herr : e.kind = .error)
    (hes : e.Above s) : e = n := by
  rcases parenthesizedString?_eq_some hs with ⟨-, hc, -⟩ | ⟨-, c, rest, hc, hp, hcs, -⟩
  · have hsn := mem_of_namedChildren hc
    exact (h.occurs_child hx hsn (.here s) hne hes.occurs).resolve_right hes.not_occurs
  · have hcn := mem_of_namedChildren hc
    have hsc := mem_of_namedChildren hcs
    refine (h.occurs_child hx hcn (occurs_of_child hsc) hne hes.occurs).resolve_right fun hce => ?_
    rcases (h.child hcn).occurs_child hx hsc (.here s) hce hes.occurs with rfl | hse
    · simp [isPhrase, herr] at hp
    · exact hes.not_occurs hse

/-- An error node above a literal is the sibling in which the argument of an exported alias was
found. -/
theorem inspected_of_error (h : root.Nested) (hr : r ∈ moduleReferences source root)
    (hx : r.literal.start < r.literal.stop) {e : Node}
    (he : root.Occurs e) (herr : e.kind = .error) (hel : e.Above r.literal) :
    ∃ v, root.top.Reaches source v ∧ v.node.isPhrase .exportStatement = true ∧
      v.recovered? source = some r ∧ (e, r.statement) ∈ v.inspected ∧
      parenthesizedString? e = some r.literal := by
  obtain ⟨v, hv, hr⟩ := mem_moduleReferences_iff.mp hr
  have hnode := hv.occurs.1
  -- A node that names something is no error node, so one around a place in it is around a child's.
  have hinside : ∀ {c}, c ∈ v.node.children → c.Occurs r.literal → c.Occurs e := by
    intro c hc hcl
    have hve := hv.error_inside h.toRanged hx (.inside hc hcl) he herr hel.occurs
    refine ((h.toRanged.sub hnode).occurs_child hx hc hcl hve hel.occurs).resolve_left ?_
    rintro rfl
    have hnames := Visit.namesModule_of_names? hr
    simp [namesModule, isPhrase, herr] at hnames
  rcases Visit.names?_eq_some hr with ⟨-, hs, -⟩ | ⟨hk, -, hrec⟩
  · exact absurd (hinside (mem_of_source? hs) (.here _)) hel.not_occurs
  · obtain ⟨-, n, hn, hs⟩ := Visit.recovered?_eq_some hrec
    have hns := (occurs_of_parenthesized hs).1
    have hne : n.Occurs e := by
      rcases Visit.mem_of_mem_inspected hn with ⟨-, hc⟩ | ⟨-, hnext⟩
      · exact hinside hc hns
      · obtain ⟨u, hu, rfl⟩ := hv.after (nextNamed?_mem hnext)
        exact hu.error_inside h.toRanged hx hns he herr hel.occurs
    have heq := eq_of_error_around (h.toRanged.sub (hv.occurs_inspected hn)) hx hs hne herr hel
    subst heq
    exact ⟨v, hv, hk, hrec, hn, hs⟩

/-! ## The references of a tree -/

/-- The references of a tree are those found in preorder.  Where ranges nest, their literals stand
in their statements and follow one another, and one that is not empty and stands below an error node
was found in that node as the argument of an exported alias.  If none of the literals is empty, none
is given twice and they begin one after the other. -/
theorem moduleReferences_ordered (source : Bytes) (root : Node) :
    moduleReferences source root = root.preorder source none [] ∧
    (root.Nested →
      (∀ r ∈ moduleReferences source root,
        r.statement.start ≤ r.literal.start ∧ r.literal.stop ≤ r.statement.stop) ∧
      (moduleReferences source root).Pairwise (fun r t => r.literal.stop ≤ t.literal.start) ∧
      (∀ r ∈ moduleReferences source root, r.literal.start < r.literal.stop →
        ∀ e, root.Occurs e → e.kind = .error → e.Above r.literal →
        ∃ v, root.top.Reaches source v ∧ v.node.isPhrase .exportStatement = true ∧
          v.recovered? source = some r ∧ (e, r.statement) ∈ v.inspected ∧
          parenthesizedString? e = some r.literal) ∧
      ((∀ r ∈ moduleReferences source root, r.literal.start < r.literal.stop) →
        ((moduleReferences source root).map Reference.literal).Nodup ∧
        (moduleReferences source root).Pairwise
          (fun r t => r.literal.start < t.literal.start))) := by
  refine ⟨moduleReferences_eq_preorder root, fun h => ?_⟩
  have hbefore := (spread_moduleReferences source h).ordered
  refine ⟨fun r hr => ?_, hbefore, fun r hr hx e he herr hel =>
    inspected_of_error h hr hx he herr hel,
    fun hsolid => ?_⟩
  · obtain ⟨hs, hl⟩ := statement_around hr
    exact (h.toRanged.sub hs).within hl
  · have hstart : (moduleReferences source root).Pairwise fun r t =>
        r.literal.start < t.literal.start :=
      hbefore.imp_of_mem fun hr _ hrt => Nat.lt_of_lt_of_le (hsolid _ hr) hrt
    refine ⟨List.pairwise_map.mpr (hstart.imp fun hlt heq => ?_), hstart⟩
    rw [heq] at hlt
    exact Nat.lt_irrefl _ hlt

namespace Sample

def phrase (p : Phrase) (start stop : Nat) (children : List Node) : Node :=
  .mk { kind := .phrase p, start, stop } children

/-- An exported alias whose argument goes on with what fits nowhere, and an import. -/
def damaged : Bytes := Utf8.encode "export import x=require('a') 'b')\nimport 'c';".toList

/-- A string without escapes. -/
def quoted (start stop : Nat) : Node :=
  phrase .string start stop [.leaf (.mark "'") start (start + 1),
    .leaf .singleFragment (start + 1) (stop - 1), .leaf (.mark "'") (stop - 1) stop]

def parenthesized (start stop : Nat) : Node :=
  phrase .parenthesizedExpression start stop
    [.leaf (.mark "(") start (start + 1), quoted (start + 1) (stop - 1),
      .leaf (.mark ")") (stop - 1) stop]

/-- What does not fit stands in an error node, and the argument of the alias with it. -/
def damage : Node :=
  .mk { kind := .error, start := 23, stop := 33 }
    [parenthesized 23 28, quoted 29 32, .leaf (.mark ")") 32 33]

def damagedTree : Node :=
  phrase .program 0 45
    [phrase .exportStatement 0 23
      [.leaf (.word "export") 0 6,
        phrase .importAlias 7 23
          [.leaf (.word "import") 7 13, .leaf .identifier 14 15, .leaf (.mark "=") 15 16,
            .leaf .identifier 16 23,
            .mk { kind := .token (.mark ";"), start := 23, stop := 23, missing := true } []]],
      damage,
      phrase .importStatement 34 45
        [.leaf (.word "import") 34 40, (quoted 41 44).withRole (some .source),
          .leaf (.mark ";") 44 45]]

/-- Two imports with nothing where their strings stand. -/
def hollowTree : Node :=
  let hollow := (phrase .string 6 6 []).withRole (some .source)
  phrase .program 0 6
    [phrase .importStatement 0 6 [.leaf (.word "import") 0 6, hollow],
      phrase .importStatement 6 6 [hollow]]

/-- An exported alias of `require` with the node that ends it. -/
def exported (stop : Nat) (last : Node) : Node :=
  phrase .exportStatement 0 stop
    [.leaf (.word "export") 0 6,
      phrase .importAlias 7 stop
        [.leaf (.word "import") 7 13, .leaf .identifier 14 15, .leaf (.mark "=") 15 16,
          .leaf .identifier 16 23, last]]

/-- A parenthesized string with the semicolon behind it. -/
def statement (start stop : Nat) : Node :=
  phrase .expressionStatement start stop
    [parenthesized start (stop - 1), .leaf (.mark ";") (stop - 1) stop]

/-- An alias without an argument, and a string in parentheses. -/
def closed : Bytes := Utf8.encode "export import x=require;('a');".toList

def closedTree : Node :=
  phrase .program 0 30 [exported 24 (.leaf (.mark ";") 23 24), statement 24 30]

theorem closedTree_wellNested : closedTree.WellNested :=
  wellNested_of_check (by decide +kernel) (by decide +kernel)

/-- The statement of the alias, as it is visited. -/
def closedVisit : Visit :=
  ⟨exported 24 (.leaf (.mark ";") 23 24), some closedTree, [statement 24 30]⟩

theorem closedVisit_reached : closedTree.top.Reaches closed closedVisit :=
  .child .here (by decide +kernel) List.mem_cons_self

theorem closedVisit_recovers :
    closedVisit.recovered? closed = some ⟨quoted 25 28, statement 24 30⟩ := by
  rfl

end Sample

/-- The argument of the alias is found in the error node, before the import that follows. -/
theorem moduleReferences_ordered_sample : Sample.damagedTree.Nested ∧
    (moduleReferences Sample.damaged Sample.damagedTree).map
        (fun r => (r.literal.start, r.statement.start)) = [(24, 23), (41, 34)] ∧
      ((moduleReferences Sample.damaged Sample.damagedTree).map Reference.literal).Nodup ∧
      ∃ v, Sample.damagedTree.top.Reaches Sample.damaged v ∧
        v.recovered? Sample.damaged = some ⟨Sample.quoted 24 27, Sample.damage⟩ ∧
        (Sample.damage, Sample.damage) ∈ v.inspected := by
  have hnested : Sample.damagedTree.Nested := nested_of_check (by decide +kernel)
  obtain ⟨hpre, hafter⟩ := moduleReferences_ordered Sample.damaged Sample.damagedTree
  obtain ⟨-, -, herror, hsolid⟩ := hafter hnested
  have hmem : (⟨Sample.quoted 24 27, Sample.damage⟩ : Reference) ∈
      moduleReferences Sample.damaged Sample.damagedTree := by
    rw [hpre]
    exact List.mem_cons_self
  obtain ⟨v, hv, -, hrec, hn, -⟩ := herror _ hmem (by decide) Sample.damage
    (occurs_of_child (List.mem_cons_of_mem _ List.mem_cons_self)) rfl
    ⟨Sample.parenthesized 23 28, List.mem_cons_self,
      occurs_of_child (List.mem_cons_of_mem _ List.mem_cons_self)⟩
  refine ⟨hnested, ?_, (hsolid ?_).1, v, hv, hrec, hn⟩
  · rw [hpre]
    decide +kernel
  · rw [hpre]
    decide +kernel

/-- Two imports of empty strings at one offset: their literals do not begin one after the other.
And the alias whose argument is found may be one that a semicolon of the text ends. -/
theorem moduleReferences_stalls :
    (¬ ∀ (source : Bytes) (root : Node), root.Nested →
      (moduleReferences source root).Pairwise fun r t => r.literal.start < t.literal.start) ∧
    ¬ ∀ (source : Bytes) (root : Node), root.WellNested → ∀ v r, root.top.Reaches source v →
      v.names? source = some r → v.recovered? source = some r →
      ∀ a ∈ v.node.children, a.isPhrase .importAlias = true →
      ∀ n ∈ a.children, n.kind = .token (.mark ";") → n.label.missing = true := by
  refine ⟨fun hrises => ?_, fun hlacks => ?_⟩
  · have hstart := hrises [] Sample.hollowTree (nested_of_check (by decide +kernel))
    rw [moduleReferences_eq_preorder] at hstart
    exact absurd hstart (by decide +kernel)
  · have hmissing := hlacks Sample.closed Sample.closedTree Sample.closedTree_wellNested
      Sample.closedVisit _ Sample.closedVisit_reached rfl Sample.closedVisit_recovers _
      (List.mem_cons_of_mem _ List.mem_cons_self) rfl (.leaf (.mark ";") 23 24)
      (List.mem_of_getLast? rfl) rfl
    exact absurd hmissing (by decide)

end UberPackage.TypeScript
