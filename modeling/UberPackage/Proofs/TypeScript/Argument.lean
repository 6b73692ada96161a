/-
  The strings that are taken for the argument of an exported alias.

  `export import x = require(…)` is read as an alias that lacks its semicolon, and a statement of
  its own for the parenthesized string.  What is looked at is the alias' last word and what comes
  next, not how the alias ends.  So the string of an expression statement is taken exactly when an
  exported alias of `require` comes right before it (`moduleReferences_argument`), and that is also
  the case where a semicolon of the text ends the alias and the string is one like any other
  (`recovers_closed`).
-/
import UberPackage.Proofs.TypeScript.Order

namespace UberPackage.TypeScript

open Node

variable {source : Bytes}

/-! ## The node that a place stands in -/

namespace Node

variable {root a b x : Node}

/-- Of two nodes around a place, one is around the other. -/
theorem Ranged.occurs_or_occurs (h : root.Ranged) (hx : x.start < x.stop) (ha : root.Occurs a)
    (hb : root.Occurs b) (hax : a.Occurs x) (hbx : b.Occurs x) : a.Occurs b ∨ b.Occurs a := by
  induction ha with
  | here => exact Or.inl hb
  | inside hc hca ih =>
    rcases h.occurs_child hx hc (hca.trans hax) hb hbx with rfl | hcb
    · exact Or.inr (.inside hc hca)
    · exact ih (h.child hc) hcb hax

theorem Ranged.eq_of_occurs_parent (h : root.Ranged) (hx : x.start < x.stop) (ha : root.Occurs a)
    (hab : a.Occurs b) (hax : x ∈ a.children) (hbx : x ∈ b.children) : a = b := by
  cases hab with
  | here => rfl
  | @inside _ d _ hd hdb =>
    have hdx : d.Occurs x := hdb.trans (occurs_of_child hbx)
    rcases (h.sub ha).occurs_child hx hax (.here x) (occurs_of_child hd) hdx with rfl | hxd
    · exact absurd (.here d) (not_occurs_parent hd)
    · exact absurd (hxd.trans hdb) (not_occurs_parent hbx)

/-- A node stands in one other only. -/
theorem Ranged.parent_unique (h : root.Ranged) (hx : x.start < x.stop) (ha : root.Occurs a)
    (hb : root.Occurs b) (hax : x ∈ a.children) (hbx : x ∈ b.children) : a = b := by
  rcases h.occurs_or_occurs hx ha hb (occurs_of_child hax) (occurs_of_child hbx) with hab | hba
  · exact h.eq_of_occurs_parent hx ha hab hax hbx
  · exact (h.eq_of_occurs_parent hx hb hba hbx hax).symm

theorem kind_of_isPhrase {n : Node} {p : Phrase} (h : n.isPhrase p = true) : n.kind = .phrase p :=
  beq_iff_eq.mp h

end Node

/-- What follows a node that is reached stands beside it, behind it. -/
theorem Visit.Reaches.beside {root : Node} {v : Visit} (h : root.Ranged)
    (hv : root.top.Reaches source v) {m : Node} (hm : m ∈ v.after) :
    ∃ q, root.Occurs q ∧ v.node ∈ q.children ∧ m ∈ q.children ∧ v.node.stop ≤ m.start := by
  cases hv with
  | here => exact absurd hm List.not_mem_nil
  | @child w _ hw _ hu =>
    obtain ⟨hn, -, ha⟩ := mem_ofSiblings hu
    refine ⟨w.node, hw.occurs.1, hn, ha m hm, ?_⟩
    have hord := h.ordered w.node hw.occurs.1
    clear ha hn
    rw [Visit.children] at hu
    generalize w.node.children = ns at hu hord
    induction ns with
    | nil => exact absurd hu List.not_mem_nil
    | cons n ns ih =>
      obtain ⟨hfirst, hord⟩ := List.pairwise_cons.mp hord
      rcases List.mem_cons.mp hu with rfl | hu
      · exact hfirst m hm
      · exact ih hu hord

/-- The first named child has no named one in front of it. -/
theorem not_before_first {q m n : Node} {rest : List Node} (h : q.Ranged)
    (hfirst : q.namedChildren = n :: rest) (hm : m ∈ q.children) (hnamed : m.named = true)
    (hsolid : n.start < n.stop) : ¬ m.stop ≤ n.start := by
  intro hle
  obtain ⟨as, bs, hsplit, has⟩ := (List.find?_eq_some_iff_append.mp (find?_named hfirst)).2
  have hord := h.ordered q (.here q)
  have hmm := h.forward m (occurs_of_child hm)
  rw [hsplit] at hm hord
  rcases List.mem_append.mp hm with hm | hm
  · have hno := has m hm
    rw [hnamed] at hno
    cases hno
  · rcases List.mem_cons.mp hm with rfl | hm
    · omega
    · have hnm := (List.pairwise_cons.mp (List.pairwise_append.mp hord).2.1).1 m hm
      omega

/-! ## The argument of an exported alias -/

namespace Visit

/-- The statement has no source of its own, and the argument of its alias is found. -/
structure Recovers (source : Bytes) (v : Visit) (r : Reference) : Prop where
  exports : v.node.isPhrase .exportStatement = true
  plain : v.sourceString? = none
  found : v.recovered? source = some r

theorem Recovers.names? {v : Visit} {r : Reference} (h : v.Recovers source r) :
    v.names? source = some r := by
  rw [Visit.names?, isPhrase, isPhrase, isPhrase, kind_of_isPhrase h.exports, h.plain, h.found]
  rfl

theorem recovered?_eq_none {v : Visit} (h : v.aliasesRequire source = true) :
    v.recovered? source = none ↔ ∀ n owner, (n, owner) ∈ v.inspected →
    parenthesizedString? n = none := by
  rw [recovered?, if_pos h, List.findSome?_eq_none_iff]
  simp only [Prod.forall, Option.map_eq_none_iff]

/-- The semicolon with which the alias in a statement ends. -/
def semicolon? (v : Visit) : Option Node :=
  v.alias?.bind fun a => a.node.children.getLast?.filter (·.kind == .token (.mark ";"))

/-- The alias lacks its semicolon, and one was supplied. -/
def lacksSemicolon (v : Visit) : Bool := v.semicolon?.any (·.label.missing)

/-- A semicolon of the text ends the alias. -/
def hasSemicolon (v : Visit) : Bool := v.semicolon?.any (!·.label.missing)

end Visit

/-- An expression statement of a parenthesized string. -/
theorem parenthesized_of_statement {c s : Node} (hk : c.isPhrase .expressionStatement = true)
    (hs : parenthesizedString? c = some s) : ∃ p rest, c.namedChildren = p :: rest ∧
      p.isPhrase .parenthesizedExpression = true ∧ p.namedChildren = [s] := by
  rcases parenthesizedString?_eq_some hs with ⟨hp, -⟩ | ⟨-, p, rest, hfirst, hp, hps, -⟩
  · rw [isPhrase, kind_of_isPhrase hk] at hp
    cases hp
  · exact ⟨p, rest, hfirst, hp, hps⟩

/-- No exported alias looks into what comes first in an expression statement. -/
theorem not_inspected_first {root : Node} (h : root.Ranged) {v : Visit}
    (hv : root.top.Reaches source v) (hexport : v.node.isPhrase .exportStatement = true)
    {c p : Node} {rest : List Node} (hc : root.Occurs c)
    (hk : c.isPhrase .expressionStatement = true) (hfirst : c.namedChildren = p :: rest)
    (hsolid : p.start < p.stop) (owner : Node) : (p, owner) ∉ v.inspected := by
  intro hp
  have hcp := mem_of_namedChildren hfirst
  rcases Visit.mem_of_mem_inspected hp with ⟨-, hin⟩ | ⟨-, hnext⟩
  · have hvc := h.parent_unique hsolid hv.occurs.1 hc hin hcp
    rw [hvc, isPhrase, kind_of_isPhrase hk] at hexport
    cases hexport
  · obtain ⟨q, hq, hvq, hpq, hbefore⟩ := hv.beside h (nextNamed?_mem hnext)
    have hqc := h.parent_unique hsolid hq hc hpq hcp
    subst hqc
    have hnamed : v.node.named = true := by
      rw [Node.named, kind_of_isPhrase hexport]
      rfl
    exact not_before_first (h.sub hq) hfirst hvq hnamed hsolid hbefore

/-- The string of an expression statement that is taken is taken from the statement as a whole. -/
theorem inspected_of_literal {root c : Node} {r : Reference} (h : root.WellNested)
    (hc : root.Occurs c) (hk : c.isPhrase .expressionStatement = true)
    (hs : parenthesizedString? c = some r.literal) (hr : r ∈ moduleReferences source root) :
    ∃ v, root.top.Reaches source v ∧ v.Recovers source r ∧ (c, r.statement) ∈ v.inspected := by
  have hx := literal_solid h hr
  obtain ⟨p, rest, hfirst, hp, hpc⟩ := parenthesized_of_statement hk hs
  have hcp := mem_of_namedChildren hfirst
  have hpl := mem_of_namedChildren hpc
  have hpo : root.Occurs p := hc.trans (occurs_of_child hcp)
  have hsolid : p.start < p.stop := by
    have := (h.toRanged.sub hpo).within (occurs_of_child hpl)
    omega
  obtain ⟨v, hv, hr⟩ := mem_moduleReferences_iff.mp hr
  rcases Visit.names?_eq_some hr with ⟨hnames, hsource, -⟩ | ⟨hexport, hplain, hrec⟩
  · -- The string stands in parentheses, and so in no statement as its source.
    have hvp := h.toRanged.parent_unique hx hv.occurs.1 hpo (mem_of_source? hsource) hpl
    rw [hvp, namesModule, isPhrase, isPhrase, isPhrase, kind_of_isPhrase hp] at hnames
    cases hnames
  · refine ⟨v, hv, ⟨hexport, hplain, hrec⟩, ?_⟩
    obtain ⟨-, n, hn, hns⟩ := Visit.recovered?_eq_some hrec
    have hno := hv.occurs_inspected hn
    rcases parenthesizedString?_eq_some hns with ⟨-, hnl, -⟩ | ⟨-, d, rest', hd, -, hdl, -⟩
    · have hnp := h.toRanged.parent_unique hx hno hpo (mem_of_namedChildren hnl) hpl
      subst hnp
      exact absurd hn (not_inspected_first h.toRanged hv hexport hc hk hfirst hsolid _)
    · have hdn := mem_of_namedChildren hd
      have hdp := h.toRanged.parent_unique hx (hno.trans (occurs_of_child hdn)) hpo
        (mem_of_namedChildren hdl) hpl
      subst hdp
      have hnc := h.toRanged.parent_unique hsolid hno hc hdn hcp
      rwa [← hnc]

/-- Each string that is taken is the source of a statement or clause, or the argument of an exported
alias.  In a well-nested tree, the string of an expression statement is taken exactly when an
exported alias of `require` finds its argument there, whatever follows or precedes the two.  That no
alias which a semicolon of the text ends takes a string holds of exactly the trees in which no
parenthesized string comes next to such an alias of `require`. -/
theorem moduleReferences_argument (source : Bytes) (root : Node) :
    (∀ r ∈ moduleReferences source root, ∃ v, root.top.Reaches source v ∧
      (v.node.namesModule = true ∧ v.node.source? = some r.literal ∨ v.Recovers source r)) ∧
    (root.WellNested →
      ∀ c s, root.Occurs c → c.isPhrase .expressionStatement = true →
      parenthesizedString? c = some s →
      ((∃ r ∈ moduleReferences source root, r.literal = s) ↔
        ∃ v owner, root.top.Reaches source v ∧ v.Recovers source ⟨s, owner⟩ ∧
          (c, owner) ∈ v.inspected)) ∧
    ((∀ v r, root.top.Reaches source v → v.Recovers source r → v.hasSemicolon = false) ↔
      ∀ v, root.top.Reaches source v → v.node.isPhrase .exportStatement = true →
        v.sourceString? = none →
        v.aliasesRequire source = true → v.hasSemicolon = true →
        ∀ n owner, (n, owner) ∈ v.inspected → parenthesizedString? n = none) := by
  refine ⟨fun r hr => ?_, fun h c s hc hk hs => ⟨?_, ?_⟩,
    fun hclosed v hv hexport hplain hreq hsemi n owner hn => ?_, fun hnone v r hv hrec => ?_⟩
  · obtain ⟨v, hv, hr⟩ := mem_moduleReferences_iff.mp hr
    rcases Visit.names?_eq_some hr with ⟨hnames, hs, -⟩ | ⟨hexport, hplain, hrec⟩
    · exact ⟨v, hv, Or.inl ⟨hnames, hs⟩⟩
    · exact ⟨v, hv, Or.inr ⟨hexport, hplain, hrec⟩⟩
  · rintro ⟨r, hr, rfl⟩
    obtain ⟨v, hv, hrec, hn⟩ := inspected_of_literal h hc hk hs hr
    exact ⟨v, r.statement, hv, hrec, hn⟩
  · rintro ⟨v, owner, hv, hrec, -⟩
    exact ⟨_, mem_moduleReferences_iff.mpr ⟨v, hv, hrec.names?⟩, rfl⟩
  · cases hfound : v.recovered? source with
    | none => exact (Visit.recovered?_eq_none hreq).mp hfound n owner hn
    | some r =>
      rw [hclosed v r hv ⟨hexport, hplain, hfound⟩] at hsemi
      cases hsemi
  · obtain ⟨hreq, n, hn, hs⟩ := Visit.recovered?_eq_some hrec.found
    refine Bool.eq_false_iff.mpr fun hsemi => ?_
    rw [hnone v hv hrec.exports hrec.plain hreq hsemi n _ hn] at hs
    cases hs

namespace Sample

/-- An alias with its argument, and a string in parentheses. -/
def twice : Bytes := Utf8.encode "export import x=require('a');('b');".toList

def twiceTree : Node :=
  phrase .program 0 35
    [exported 23 (.mk { kind := .token (.mark ";"), start := 23, stop := 23, missing := true } []),
      statement 23 29, statement 29 35]

end Sample

/-- The first string is the argument of the alias before it, and taken; the second is not. -/
theorem moduleReferences_argument_sample : Sample.twiceTree.WellNested ∧
    (∃ v owner, Sample.twiceTree.top.Reaches Sample.twice v ∧
      v.Recovers Sample.twice ⟨Sample.quoted 24 27, owner⟩ ∧
      (Sample.statement 23 29, owner) ∈ v.inspected) ∧
    ¬ ∃ v owner, Sample.twiceTree.top.Reaches Sample.twice v ∧
      v.Recovers Sample.twice ⟨Sample.quoted 30 33, owner⟩ ∧
      (Sample.statement 29 35, owner) ∈ v.inspected := by
  have hnested : Sample.twiceTree.WellNested :=
    wellNested_of_check (by decide +kernel) (by decide +kernel)
  have htaken := (moduleReferences_argument Sample.twice Sample.twiceTree).2.1 hnested
  have hrefs : moduleReferences Sample.twice Sample.twiceTree =
      [⟨Sample.quoted 24 27, Sample.statement 23 29⟩] := by
    rw [moduleReferences_eq_preorder]
    rfl
  have hfirst := htaken (Sample.statement 23 29) (Sample.quoted 24 27)
    (occurs_of_child (List.mem_cons_of_mem _ List.mem_cons_self)) rfl rfl
  have hsecond := htaken (Sample.statement 29 35) (Sample.quoted 30 33)
    (occurs_of_child (List.mem_cons_of_mem _ (List.mem_cons_of_mem _ List.mem_cons_self))) rfl rfl
  rw [hrefs] at hfirst hsecond
  refine ⟨hnested, hfirst.mp ⟨_, List.mem_cons_self, rfl⟩, fun hno => ?_⟩
  obtain ⟨r, hr, hrs⟩ := hsecond.mpr hno
  rw [List.mem_singleton.mp hr] at hrs
  cases hrs

/-- An alias that a semicolon of the text ends takes a string that comes next all the same, though
it is a statement of its own. -/
theorem recovers_closed :
    (¬ ∀ (source : Bytes) (root : Node), root.WellNested → ∀ v r, root.top.Reaches source v →
      v.node.isPhrase .exportStatement = true → v.sourceString? = none →
      exportedRequire? source v = some r → v.lacksSemicolon = true) ∧
    ¬ ∀ (source : Bytes) (root : Node), root.WellNested → ∀ v c s, root.top.Reaches source v →
      v.node.isPhrase .exportStatement = true → v.aliasesRequire source = true →
      v.hasSemicolon = true →
      v.nextNamed? = some c → c.isPhrase .expressionStatement = true →
      parenthesizedString? c = some s →
      ∀ r ∈ moduleReferences source root, r.literal ≠ s := by
  have hrec := Sample.closedVisit_recovers
  refine ⟨fun hlacks => ?_, fun hnever => ?_⟩
  · have hno :=
      hlacks Sample.closed Sample.closedTree Sample.closedTree_wellNested Sample.closedVisit _
      Sample.closedVisit_reached rfl rfl ((exportedRequire?_eq _).trans hrec)
    exact absurd hno (by decide)
  · have hmem : (⟨Sample.quoted 25 28, Sample.statement 24 30⟩ : Reference) ∈
        moduleReferences Sample.closed Sample.closedTree :=
      mem_moduleReferences_iff.mpr ⟨Sample.closedVisit, Sample.closedVisit_reached,
        Visit.Recovers.names? ⟨rfl, rfl, hrec⟩⟩
    exact hnever Sample.closed Sample.closedTree Sample.closedTree_wellNested Sample.closedVisit
      (Sample.statement 24 30) (Sample.quoted 25 28) Sample.closedVisit_reached rfl
        (by decide +kernel)
      (by decide) rfl rfl rfl _ hmem rfl

end UberPackage.TypeScript
