/-
  Layouts with their libraries in another order.

  The first library that provides a specifier is asked for its place, so the order of the libraries
  matters where several do.  Of libraries whose names are apart (`Library.Apart`) only one provides
  a specifier (`Library.Apart.not_provides`), and so neither a resolved specifier nor a redirected
  text depends on the order (`Layout.redirect_perm`).  Names that differ by a slash at the end are
  not apart: both libraries provide the longer name (`Layout.resolve_trailing`).
-/
import UberPackage.Proofs.Layout
import UberPackage.Redirection

namespace UberPackage

/-! ## Libraries whose names are apart -/

/-- Neither name is the other or begins with the other and a slash. -/
structure Library.Apart (a b : Library) : Prop where
  ne : a.name ≠ b.name
  not_below : ∀ sub, b.name ≠ a.name ++ .char '/' :: sub
  not_above : ∀ sub, a.name ≠ b.name ++ .char '/' :: sub

/-- Of two texts with a slash behind each that begin a third, one begins the other. -/
theorem eq_or_below_of_append_eq {s t x y : Text} (h : s ++ .char '/' :: x = t ++ .char '/' :: y) :
    s = t ∨ (∃ sub, t = s ++ .char '/' :: sub) ∨ ∃ sub, s = t ++ .char '/' :: sub := by
  rcases List.append_eq_append_iff.mp h with ⟨z, rfl, hz⟩ | ⟨z, rfl, hz⟩
  · cases z with
    | nil => exact Or.inl (List.append_nil s).symm
    | cons c z =>
      obtain ⟨rfl, -⟩ := List.cons_eq_cons.mp hz
      exact Or.inr (Or.inl ⟨z, rfl⟩)
  · cases z with
    | nil => exact Or.inl (List.append_nil t)
    | cons c z =>
      obtain ⟨rfl, -⟩ := List.cons_eq_cons.mp hz
      exact Or.inr (Or.inr ⟨z, rfl⟩)

/-- A specifier of one library is not one of the other. -/
theorem Library.Apart.not_provides {a b : Library} (h : a.Apart b) {specifier : Text}
    (ha : a.provides specifier = true) : b.provides specifier = false := by
  refine Bool.eq_false_iff.mpr fun hb => ?_
  rcases Layout.specifier_cases ha with rfl | ⟨x, rfl⟩
  · rcases Layout.specifier_cases hb with he | ⟨y, he⟩
    · exact h.ne he
    · exact h.not_above y he
  · rcases Layout.specifier_cases hb with he | ⟨y, he⟩
    · exact h.not_below x he.symm
    · rcases eq_or_below_of_append_eq he with hab | ⟨sub, hab⟩ | ⟨sub, hab⟩
      · exact h.ne hab
      · exact h.not_below sub hab
      · exact h.not_above sub hab

/-- At most one of the libraries provides a specifier. -/
theorem length_filter_provides {libs : List Library} (h : libs.Pairwise Library.Apart)
    (specifier : Text) :
    (libs.filter (·.provides specifier)).length ≤ 1 := by
  have hall : ∀ l ∈ libs.filter (·.provides specifier), l.provides specifier = true := fun l hl =>
    (List.mem_filter.mp hl).2
  have hpair := h.filter (·.provides specifier)
  cases hf : libs.filter (·.provides specifier) with
  | nil => exact Nat.zero_le 1
  | cons a rest =>
    cases rest with
    | nil => exact Nat.le_refl 1
    | cons b rest =>
      rw [hf] at hall hpair
      have hab := (List.pairwise_cons.mp hpair).1 b List.mem_cons_self
      have hno := hab.not_provides (hall a List.mem_cons_self)
      rw [hall b (List.mem_cons_of_mem _ List.mem_cons_self)] at hno
      cases hno

namespace Layout

/-! ## Another order -/

/-- Libraries with at most one provider have the same in each order. -/
theorem provider?_perm {libs libs' : List Library} (h : libs.Perm libs') {specifier : Text}
    (hone : (libs.filter (·.provides specifier)).length ≤ 1) (root cwd : Path) :
    provider? ⟨libs, root, cwd⟩ specifier = provider? ⟨libs', root, cwd⟩ specifier := by
  have hperm := h.filter (·.provides specifier)
  rw [provider?, provider?, ← List.head?_filter, ← List.head?_filter]
  cases hf : libs.filter (·.provides specifier) with
  | nil =>
    rw [hf] at hperm
    rw [hperm.nil_eq]
  | cons a rest =>
    rw [hf] at hperm hone
    have hrest : rest = [] := List.eq_nil_of_length_eq_zero (by simpa using hone)
    subst hrest
    rw [List.perm_singleton.mp hperm.symm]

/-- Redirecting depends on a layout through what it makes of specifiers. -/
theorem redirect_congr {layout other : Layout} {directory : Path}
    (h : ∀ specifier, layout.resolve? specifier directory = other.resolve? specifier directory)
    (strict : Bool) (source : Text) (file : Text) :
    layout.redirect strict source directory file = other.redirect strict source directory file := by
  have href : ∀ bytes, Redirection.ofReference? layout directory bytes =
      Redirection.ofReference? other directory bytes := fun bytes => by
    funext r
    rw [Redirection.ofReference?, Redirection.ofReference?]
    simp only [h]
  simp only [redirect, redirectChars, redirectTree, href]

/-- Of libraries whose names are apart at most one provides a specifier; so in another order they
resolve each specifier the same, and redirect each text the same. -/
theorem redirect_perm {libs libs' : List Library} (h : libs.Perm libs')
    (hapart : libs.Pairwise Library.Apart) (root cwd directory : Path) :
    (∀ specifier, (libs.filter (·.provides specifier)).length ≤ 1 ∧
      (libs'.filter (·.provides specifier)).length ≤ 1 ∧
      resolve? ⟨libs, root, cwd⟩ specifier directory =
        resolve? ⟨libs', root, cwd⟩ specifier directory) ∧
    ∀ strict source file,
      redirect ⟨libs, root, cwd⟩ strict source directory file =
        redirect ⟨libs', root, cwd⟩ strict source directory file := by
  have hone : ∀ specifier, (libs.filter (·.provides specifier)).length ≤ 1 :=
    length_filter_provides hapart
  have hresolve : ∀ specifier, resolve? ⟨libs, root, cwd⟩ specifier directory =
      resolve? ⟨libs', root, cwd⟩ specifier directory := fun specifier => by
    rw [resolve?, resolve?, provider?_perm h (hone specifier) root cwd]
    rfl
  refine ⟨fun specifier => ⟨hone specifier, ?_, hresolve specifier⟩, redirect_congr hresolve⟩
  rw [← (h.filter (·.provides specifier)).length_eq]
  exact hone specifier

namespace Sample

/-- A library in the directory of its short name. -/
def library (name short : Text) : Library :=
  ⟨⟨[("name", .str name)]⟩, ⟨.slash, ["p", short]⟩, short⟩

def core : Library := library "@s/core" "core"

/-- A library whose name begins with that of another. -/
def coreUtils : Library := library "@s/core-utils" "core-utils"

/-- A library whose name is that of another and a slash. -/
def coreSlash : Library := library "@s/core/" "core/"

def lib : Path := ⟨.slash, ["lib"]⟩

def widgets : Path := ⟨.slash, ["lib", "widgets"]⟩

end Sample

theorem redirect_perm_sample :
    [Sample.core, Sample.coreUtils].Perm [Sample.coreUtils, Sample.core] ∧
      [Sample.core, Sample.coreUtils].Pairwise Library.Apart ∧
      resolve? { libraries := [Sample.coreUtils, Sample.core], root :=
        Sample.lib } "@s/core-utils/a" Sample.widgets = some "../core-utils/a" := by
  have hperm : [Sample.core, Sample.coreUtils].Perm [Sample.coreUtils, Sample.core] := .swap _ _ _
  have hapart : Sample.core.Apart Sample.coreUtils := by
    have hcore : Sample.core.name = "@s/core" := rfl
    have hutils : Sample.coreUtils.name = ("@s/core" : Text) ++ .char '-' :: "utils" := rfl
    refine ⟨by decide, fun sub he => ?_, fun sub he => ?_⟩
    · rw [hcore, hutils, List.append_cancel_left_eq, List.cons_eq_cons] at he
      exact absurd he.1 (by decide)
    · rw [hcore, hutils] at he
      have hlength := congrArg List.length he
      simp [Text.ofString] at hlength
  have hpair : [Sample.core, Sample.coreUtils].Pairwise Library.Apart :=
    List.pairwise_cons.mpr ⟨fun l hl => List.mem_singleton.mp hl ▸ hapart,
      List.pairwise_singleton _ _⟩
  obtain ⟨-, -, hsame⟩ :=
    (redirect_perm hperm hpair Sample.lib ⟨.slash, []⟩ Sample.widgets).1 "@s/core-utils/a"
  refine ⟨hperm, hpair, ?_⟩
  rw [← hsame]
  decide +kernel

/-- A library whose name is that of another and a slash provides the same specifier, which then
depends on the order, although neither name is the other with a slash and more behind it. -/
theorem resolve_trailing :
    ¬ ∀ (libs libs' : List Library) (root cwd directory : Path) (specifier : Text),
    libs.Perm libs' →
    libs.Pairwise (fun a b => a.name ≠ b.name ∧ ∀ sub, sub ≠ [] →
      b.name ≠ a.name ++ .char '/' :: sub ∧ a.name ≠ b.name ++ .char '/' :: sub) →
    (libs.filter (·.provides specifier)).length ≤ 1 ∧
      resolve? ⟨libs, root, cwd⟩ specifier directory =
        resolve? ⟨libs', root, cwd⟩ specifier directory := by
  intro h
  have hslash : Sample.coreSlash.name = Sample.core.name ++ .char '/' :: [] := rfl
  have hpair :
      [Sample.core, Sample.coreSlash].Pairwise fun a b => a.name ≠ b.name ∧ ∀ sub, sub ≠ [] →
      b.name ≠ a.name ++ .char '/' :: sub ∧ a.name ≠ b.name ++ .char '/' :: sub := by
    refine List.pairwise_cons.mpr ⟨fun l hl => ?_, List.pairwise_singleton _ _⟩
    rw [List.mem_singleton.mp hl]
    refine ⟨by decide, fun sub hsub => ⟨fun he => ?_, fun he => ?_⟩⟩
    · rw [hslash, List.append_cancel_left_eq, List.cons_eq_cons] at he
      exact hsub he.2.symm
    · rw [hslash] at he
      have hlength := congrArg List.length he
      simp at hlength
  obtain ⟨-, hsame⟩ := h _ _ Sample.lib ⟨.slash, []⟩ Sample.widgets "@s/core/" (.swap _ _ _) hpair
  exact absurd hsame (by decide +kernel)

end Layout

end UberPackage
