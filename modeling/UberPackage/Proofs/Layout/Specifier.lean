/-
  Specifiers that have been redirected.

  A redirected specifier, appended to the directory that it is seen from and resolved, is the place
  of its module below the root, and no library provides it again (`Layout.redirected_leads`).  It is
  a relative specifier unless the module lies below the directory itself, in something whose name
  begins with a dot (`Layout.redirected_isRelative_iff`): only the first unit is looked at before
  `./` is put in front.
-/
import UberPackage.Proofs.Layout

namespace UberPackage

namespace Path

/-! ## Paths without `..` -/

/-- The path begins with one slash; `..` may stand among its parts. -/
structure IsRooted (p : Path) : Prop where
  anchor : p.anchor = .slash
  parts : p.HasParts

theorem isRooted_ofText {t : Text} (h : anchorOf t = .slash) : (ofText t).IsRooted :=
  ⟨h, hasParts_ofText t⟩

theorem IsRooted.down {p : Path} (h : p.IsRooted) (t : Text) : (p.down (partsOf t)).IsRooted where
  anchor := h.anchor
  parts part hp := (List.mem_append.mp hp).elim (h.parts part) (hasParts_ofText t part)

/-- The path with `..` taken out. -/
def normal (p : Path) : Path := ⟨.slash, resolveParts p.parts⟩

theorem isResolved_normal {p : Path} (h : p.HasParts) : p.normal.IsResolved where
  anchor := rfl
  parts := isComponent_of_mem_resolveParts h

theorem resolveParts_normal {p : Path} (h : p.HasParts) :
    resolveParts p.normal.parts = resolveParts p.parts :=
  (isResolved_normal h).resolveParts

theorem resolve_eq_normal {p : Path} (h : p.isAbsolute = true) (cwd : Path) :
    p.resolve cwd = p.normal := by
  rw [resolve, if_pos h, normal]

/-- What comes behind a path does not tell whether `..` has been taken out before. -/
theorem resolveParts_append {p : Path} (h : p.HasParts) (parts : List Text) :
    resolveParts (p.normal.parts ++ parts) = resolveParts (p.parts ++ parts) := by
  have hstack : p.normal.parts.foldl push [] = p.parts.foldl push [] := by
    rw [← List.reverse_inj]
    exact resolveParts_normal h
  rw [resolveParts, resolveParts, List.foldl_append, List.foldl_append, hstack]

variable {start target : Path}

/-- The way between absolute paths does not tell whether `..` has been taken out before. -/
theorem relativeTo_normal (hs : start.HasParts) (ht : target.HasParts)
    (hstart : start.isAbsolute = true) (htarget : target.isAbsolute = true) (cwd : Path) :
    target.normal.relativeTo start.normal cwd = target.relativeTo start cwd := by
  rw [relativeTo, relativeTo, (isResolved_normal hs).resolve, (isResolved_normal ht).resolve,
    resolve_eq_normal hstart, resolve_eq_normal htarget]

/-- A text without an anchor leads to the same place from a path and from what it resolves to. -/
theorem resolve_normal_append (hs : start.HasParts) (ha : start.isAbsolute = true) {t : Text}
    (ht : anchorOf t = .none) (cwd : Path) :
    (start.normal / t).resolve cwd = (start / t).resolve cwd := by
  have happend : ∀ p : Path, p / t = p.down (partsOf t) := fun p => by
    show p.append t = _
    rw [append, ofText, ht, down]
  have habsolute : (start.down (partsOf t)).isAbsolute = true := ha
  rw [happend, happend, resolve_eq_normal rfl, resolve_eq_normal habsolute, normal, normal]
  exact congrArg (Path.mk .slash) (resolveParts_append hs (partsOf t))

/-! ## The first step of the way -/

theorem dropCommon_append (xs ys : List Text) : dropCommon xs (xs ++ ys) = ([], ys) := by
  induction xs with
  | nil => cases ys <;> rfl
  | cons x xs ih => rw [List.cons_append, dropCommon, if_pos rfl, ih]

/-- The way goes down, if the path lies below the directory, or else it goes up first. -/
theorem wayTo_cases (target start cwd : Path) :
    (target.resolve cwd).parts = (start.resolve cwd).parts ++ wayTo target start cwd ∨
      (∃ rest, wayTo target start cwd = (".." : Text) :: rest) ∧
        ∀ rest, (target.resolve cwd).parts ≠ (start.resolve cwd).parts ++ rest := by
  obtain ⟨common, hup, hdown⟩ :=
    dropCommon_eq (start.resolve cwd).parts (target.resolve cwd).parts
  cases hdrop : dropCommon (start.resolve cwd).parts (target.resolve cwd).parts with
  | mk up down =>
    rw [hdrop] at hup hdown
    have hway :
        wayTo target start cwd = up.map (fun _ => (".." : Text)) ++ down := by rw [wayTo, hdrop]
    cases up with
    | nil =>
      refine Or.inl ?_
      rw [hway, hdown, hup, List.append_nil]
      rfl
    | cons x up =>
      refine Or.inr ⟨⟨_, hway⟩, fun rest hrest => ?_⟩
      rw [hrest, dropCommon_append] at hdrop
      cases hdrop

/-- Seen from a working directory, the path lies below the other, and the first name on the way
begins with a dot. -/
def DotsBelow (target start cwd : Path) : Prop :=
  ∃ name rest, (target.resolve cwd).parts = (start.resolve cwd).parts ++ name :: rest ∧
    name.head? = some (.char '.')

theorem join_cons_cons (part next : Text) (parts : List Text) :
    Text.join "/" (part :: next :: parts) = part ++ .char '/' :: Text.join "/" (next :: parts) := by
  rw [Text.join, List.intercalate_cons_cons, List.append_assoc]
  rfl

/-- The first piece of a joined text is its first part. -/
theorem head_splitOn_join {part : Text} (h : Code.char '/' ∉ part) (parts : List Text) :
    ((Text.join "/" (part :: parts)).splitOn '/').head? = some part := by
  cases parts with
  | nil =>
    rw [Text.join, List.intercalate_singleton, Text.splitOn_of_not_mem h]
    rfl
  | cons next parts =>
    rw [join_cons_cons, Text.splitOn_append, Text.splitOn_of_not_mem h]
    rfl

end Path

namespace Layout

open UberPackage.Path

/-! ## Where a specifier leads -/

theorem head_dotted (relative : Text) : (dotted relative).head? = some (.char '.') := by
  rw [dotted]
  split
  · assumption
  · rfl

theorem anchorOf_dotted (relative : Text) : anchorOf (dotted relative) = .none := by
  refine anchorOf_of_head ?_
  rw [head_dotted]
  decide

/-- The relative specifier of a path leads to the path, whatever leads back on the way. -/
theorem resolve_dotted_relativeTo {directory target : Path} (hd : directory.IsRooted)
    (ht : target.IsRooted) (seen cwd : Path) :
    (directory / dotted (target.relativeTo directory seen)).resolve cwd = target.resolve cwd := by
  have habsolute : ∀ {p : Path}, p.IsRooted → p.isAbsolute = true := fun hp => by
    rw [Path.isAbsolute, hp.anchor]
    rfl
  calc (directory / dotted (target.relativeTo directory seen)).resolve cwd
      = (directory.normal / dotted (target.relativeTo directory seen)).resolve cwd :=
        (resolve_normal_append hd.parts (habsolute hd) (anchorOf_dotted _) cwd).symm
    _ = (directory.normal /
          dotted (target.normal.relativeTo directory.normal seen)).resolve cwd := by
        rw [relativeTo_normal hd.parts ht.parts (habsolute hd) (habsolute ht)]
    _ = target.normal :=
        resolve_dotted (isResolved_normal hd.parts) (isResolved_normal ht.parts) seen cwd
    _ = target.resolve cwd := (resolve_eq_normal (habsolute ht) cwd).symm

/-- The path of a module of a library: the parts of the root, of the short name and of the way
inside the library, one after the other. -/
def inside (layout : Layout) (l : Library) (sub : Text) : Path :=
  (layout.root.down (partsOf l.shortName)).down (partsOf sub)

variable {layout : Layout} {directory : Path} {specifier : Text} {l : Library}

theorem isRooted_inside (h : layout.root.IsRooted) (l : Library) (sub : Text) :
    (layout.inside l sub).IsRooted :=
  (h.down _).down _

theorem div_of_head {t : Text} (h : t.head? ≠ some (.char '/')) (p : Path) :
    p / t = p.down (partsOf t) := by
  show p.append t = _
  rw [Path.append, ofText, anchorOf_of_head h, Path.down]

theorem directory_div {l : Library} {sub : Text} (hshort : l.shortName.head? ≠ some (.char '/'))
    (hsub : sub.head? ≠ some (.char '/')) : layout.directory l / sub = layout.inside l sub := by
  rw [Layout.directory, div_of_head hshort, div_of_head hsub, inside]

theorem resolve?_eq (h : layout.provider? specifier = some l) :
    layout.resolve? specifier directory =
    some (dotted ((layout.place l specifier).relativeTo directory layout.cwd)) := by
  rw [resolve?, h]
  rfl

theorem provider?_eq_none : layout.provider? specifier = none ↔
    ∀ l ∈ layout.libraries, l.provides specifier = false := by
  rw [provider?, List.find?_eq_none]
  exact forall₂_congr fun l _ => Bool.eq_false_iff.symm

theorem resolve?_eq_none : layout.resolve? specifier directory = none ↔
    ∀ l ∈ layout.libraries, l.provides specifier = false := by
  rw [resolve?, Option.map_eq_none_iff, provider?_eq_none]

/-- A library whose name does not begin with a dot does not provide a text that does. -/
theorem not_provides_of_head {r : Text} (hr : r.head? = some (.char '.')) (hl : l.name ≠ [])
    (hdot : l.name.head? ≠ some (.char '.')) : l.provides r = false := by
  obtain ⟨c, name, hname⟩ := List.exists_cons_of_ne_nil hl
  cases hprovides : l.provides r with
  | false => rfl
  | true =>
    have hhead : r.head? = l.name.head? := by
      rcases specifier_cases hprovides with rfl | ⟨sub, rfl⟩
      · rfl
      · rw [hname]
        rfl
    exact absurd (hhead.symm.trans hr) hdot

/-- **A redirected specifier leads to its module.** Nothing is redirected exactly if no library
provides it.  Otherwise the first library that does decides: seen from the directory, the new
specifier leads to the library's index, or to the module of the same way inside the library; and no
library whose name is not empty and does not begin with a dot provides the new specifier, so it is
not redirected again. -/
theorem redirected_leads (hroot : layout.root.IsRooted) (hdirectory : directory.IsRooted)
    (hshort : ∀ l ∈ layout.libraries, l.shortName.head? ≠ some (.char '/')) :
    (layout.resolve? specifier directory = none ↔
      ∀ l ∈ layout.libraries, l.provides specifier = false) ∧
    ∀ before l after, layout.libraries = before ++ l :: after → l.provides specifier = true →
      (∀ m ∈ before, m.provides specifier = false) →
      ∃ r, layout.resolve? specifier directory = some r ∧
        (specifier = l.name → ∀ cwd, (directory / r).resolve cwd =
          (layout.inside l "index").resolve cwd) ∧
        (∀ sub, specifier = l.name ++ .char '/' :: sub → sub.head? ≠ some (.char '/') →
          ∀ cwd, (directory / r).resolve cwd = (layout.inside l sub).resolve cwd) ∧
        (∀ m : Library, m.name ≠ [] → m.name.head? ≠ some (.char '.') → m.provides r = false) ∧
        ((∀ m ∈ layout.libraries, m.name ≠ [] ∧ m.name.head? ≠ some (.char '.')) →
          ∀ other, layout.resolve? r other = none) := by
  refine ⟨resolve?_eq_none, fun before l after hlibraries hl hbefore => ?_⟩
  have hprovider : layout.provider? specifier = some l := by
    rw [provider?, List.find?_eq_some_iff_append]
    exact ⟨hl, before, after, hlibraries, fun m hm => by rw [hbefore m hm]; rfl⟩
  have hslash : l.shortName.head? ≠ some (.char '/') := hshort l (by rw [hlibraries]; simp)
  have hleads :
      ∀ sub, sub.head? ≠ some (.char '/') → layout.place l specifier = layout.directory l / sub →
        ∀ cwd, (directory / dotted
          ((layout.place l specifier).relativeTo directory layout.cwd)).resolve cwd =
            (layout.inside l sub).resolve cwd := by
    intro sub hsub hplace cwd
    rw [hplace, directory_div hslash hsub]
    exact resolve_dotted_relativeTo hdirectory (isRooted_inside hroot l sub) layout.cwd cwd
  have hagain : ∀ m : Library, m.name ≠ [] → m.name.head? ≠ some (.char '.') →
      m.provides (dotted ((layout.place l specifier).relativeTo directory layout.cwd)) = false :=
    fun m =>
    not_provides_of_head (head_dotted _)
  refine ⟨_, resolve?_eq hprovider, fun hname => ?_, fun sub hname hsub => ?_, hagain,
    fun hnames other => ?_⟩
  · exact hleads "index" (by decide) (hname ▸ place_name)
  · exact hleads sub hsub (hname ▸ place_below sub)
  · exact resolve?_eq_none.mpr fun m hm => hagain m (hnames m hm).1 (hnames m hm).2

/-! ## Relative specifiers -/

/-- A module specifier that is no package name. -/
def IsRelative (t : Text) : Prop :=
  t = "." ∨ t = ".." ∨ (↑"./" : Text) <+: t ∨ (↑"../" : Text) <+: t

instance (t : Text) : Decidable (IsRelative t) := inferInstanceAs (Decidable (_ ∨ _ ∨ _ ∨ _))

theorem IsRelative.head_splitOn {t : Text} (h : IsRelative t) :
    (t.splitOn '/').head? = some "." ∨ (t.splitOn '/').head? = some ".." := by
  rcases h with rfl | rfl | ⟨u, rfl⟩ | ⟨u, rfl⟩
  · exact Or.inl rfl
  · exact Or.inr rfl
  · exact Or.inl (by rw [show (↑"./" : Text) ++ u = "." ++ .char '/' :: u from rfl,
      Text.splitOn_append]; rfl)
  · exact Or.inr (by rw [show (↑"../" : Text) ++ u = ".." ++ .char '/' :: u from rfl,
      Text.splitOn_append]; rfl)

/-- A way that goes up first. -/
theorem isRelative_up (rest : List Text) : IsRelative (dotted (Text.join "/" (".." :: rest))) := by
  cases rest with
  | nil => exact Or.inr (Or.inl rfl)
  | cons next rest =>
    rw [join_cons_cons]
    exact Or.inr (Or.inr (Or.inr ⟨Text.join "/" (next :: rest), rfl⟩))

/-- A way that goes down is relative as it is written unless its first name begins with a dot. -/
theorem isRelative_down {name : Text} (hname : name.IsComponent) (rest : List Text) :
    IsRelative (dotted (Text.join "/" (name :: rest))) ↔ name.head? ≠ some (.char '.') := by
  have hhead : (Text.join "/" (name :: rest)).head? = name.head? := by
    obtain ⟨c, t, rfl⟩ := List.exists_cons_of_ne_nil hname.ne_nil
    cases rest with
    | nil => rw [Text.join, List.intercalate_singleton]
    | cons next rest => rw [join_cons_cons]; rfl
  rw [dotted, hhead]
  split
  · next hdot =>
    refine iff_of_false (fun hrelative => ?_) (not_not_intro hdot)
    rcases hrelative.head_splitOn with hfirst | hfirst
    · rw [head_splitOn_join hname.no_slash] at hfirst
      exact hname.ne_dot (Option.some.inj hfirst)
    · rw [head_splitOn_join hname.no_slash] at hfirst
      exact hname.ne_dots (Option.some.inj hfirst)
  · next hdot => exact iff_of_true (Or.inr (Or.inr (Or.inl (List.prefix_append _ _)))) hdot

theorem isRelative_relativeTo {target cwd : Path} (ht : (target.resolve cwd).IsResolved)
    (directory : Path) :
    IsRelative (dotted (target.relativeTo directory cwd)) ↔ ¬ target.DotsBelow directory cwd := by
  rw [relativeTo_eq]
  rcases wayTo_cases target directory cwd with hdown | ⟨⟨rest, hup⟩, hnot⟩
  · cases hway : wayTo target directory cwd with
    | nil =>
      rw [hway, List.append_nil] at hdown
      refine iff_of_true (Or.inl rfl) fun ⟨name, rest, hbelow, _⟩ => ?_
      rw [hdown] at hbelow
      exact absurd (List.append_right_eq_self.mp hbelow.symm) (List.cons_ne_nil name rest)
    | cons name rest =>
      rw [hway] at hdown
      have hname : name.IsComponent := ht.parts name (by
        rw [hdown]
        exact List.mem_append_right _ List.mem_cons_self)
      rw [if_neg (List.cons_ne_nil name rest), isRelative_down hname]
      refine not_congr ⟨fun hdot => ⟨name, rest, hdown, hdot⟩,
        fun ⟨other, others, hbelow, hdot⟩ => ?_⟩
      obtain ⟨rfl, -⟩ := List.cons.inj (List.append_cancel_left (hdown.symm.trans hbelow))
      exact hdot
  · rw [hup, if_neg (List.cons_ne_nil _ _)]
    exact iff_of_true (isRelative_up rest) fun ⟨name, rest, hbelow, _⟩ => hnot _ hbelow

theorem hasParts_place (h : layout.root.HasParts) (l : Library) (specifier : Text) :
    (layout.place l specifier).HasParts := by
  rw [place]
  split
  · exact (h.div _).div _
  · exact (h.div _).div _

/-- **When a redirected specifier is relative.** A specifier that a library provides is always
redirected, and the new one begins with a dot.  It is a relative specifier unless the module lies
below the directory and the first name on the way down begins with a dot; then that name stands
first, as the name of a package would. -/
theorem redirected_isRelative_iff (hroot : layout.root.HasParts) (hcwd : layout.cwd.HasParts)
    (h : layout.provider? specifier = some l) :
    ∃ r, layout.resolve? specifier directory = some r ∧ r.head? = some (.char '.') ∧
      (IsRelative r ↔ ¬ (layout.place l specifier).DotsBelow directory layout.cwd) := by
  have hplace : ((layout.place l specifier).resolve layout.cwd).IsResolved :=
    isResolved_resolve (hasParts_place hroot l specifier) hcwd
  exact ⟨_, resolve?_eq h, head_dotted _, isRelative_relativeTo hplace directory⟩

namespace Sample

/-! Two libraries, the name of one inside the name of the other, seen from the directory of the
first. -/

def named (name short : Text) : Library := ⟨⟨[("name", .str name)]⟩, ⟨.slash, ["p", short]⟩, short⟩

def merged : Layout where
  libraries := [named "@s/core" "core", named "@s/core/x" "x"]
  root := .ofText "/u/../lib"
  cwd := .ofText "/u"

def home : Path := .ofText "/lib/x/./../core"

theorem isRooted_merged : merged.root.IsRooted := isRooted_ofText (by decide)

theorem isRooted_home : home.IsRooted := isRooted_ofText (by decide)

theorem hasParts_cwd : merged.cwd.HasParts := hasParts_ofText _

end Sample

theorem redirected_leads_sample :
    Sample.merged.root.IsRooted ∧ Sample.home.IsRooted ∧
      (∀ l ∈ Sample.merged.libraries, l.shortName.head? ≠ some (.char '/')) ∧
      Sample.merged.resolve? "@s/core/x//y/../.z" Sample.home = some "./x/.z" ∧
      (∀ cwd, (Sample.home / (↑"./x/.z" : Text)).resolve cwd =
        (Sample.merged.inside (Sample.named "@s/core" "core") "x//y/../.z").resolve cwd) ∧
      ∀ other, Sample.merged.resolve? "./x/.z" other = none := by
  have hshort : ∀ l ∈ Sample.merged.libraries, l.shortName.head? ≠ some (.char '/') := by decide
  obtain ⟨-, hleads⟩ :=
    @redirected_leads Sample.merged Sample.home "@s/core/x//y/../.z" Sample.isRooted_merged
    Sample.isRooted_home hshort
  obtain ⟨r, hr, -, hbelow, -, hagain⟩ :=
    hleads [] (Sample.named "@s/core" "core") _ rfl (by decide) (by decide)
  obtain rfl : r = "./x/.z" := Option.some.inj (hr.symm.trans (by decide))
  exact ⟨Sample.isRooted_merged, Sample.isRooted_home, hshort, hr,
    hbelow "x//y/../.z" (by decide) (by decide),
    hagain (by decide)⟩

theorem redirected_isRelative_iff_sample :
    Sample.merged.root.HasParts ∧ Sample.merged.cwd.HasParts ∧
      Sample.merged.provider? "@s/core/x//y/../.z" = some (Sample.named "@s/core" "core") ∧
      Sample.merged.resolve? "@s/core/x//y/../.z" Sample.home = some "./x/.z" ∧
      IsRelative "./x/.z" ∧
      ¬ (Sample.merged.place (Sample.named "@s/core" "core") "@s/core/x//y/../.z").DotsBelow
        Sample.home Sample.merged.cwd := by
  have hprovider :
      Sample.merged.provider? "@s/core/x//y/../.z" = some (Sample.named "@s/core" "core") := rfl
  obtain ⟨r, hr, -, hiff⟩ :=
    @redirected_isRelative_iff _ Sample.home _ _ Sample.isRooted_merged.parts
    Sample.hasParts_cwd hprovider
  obtain rfl : r = "./x/.z" := Option.some.inj (hr.symm.trans (by decide))
  exact ⟨Sample.isRooted_merged.parts, Sample.hasParts_cwd, hprovider, hr, by decide,
    hiff.mp (by decide)⟩

/-- A library that names a module of its own, in a directory whose name begins with a dot: the new
specifier is not relative. -/
theorem redirected_hides : Sample.merged.root.IsRooted ∧ Sample.home.IsRooted ∧
    Sample.merged.resolve? "@s/core/.hidden/x" Sample.home = some ".hidden/x" ∧
    ¬ IsRelative ".hidden/x" :=
  ⟨Sample.isRooted_merged, Sample.isRooted_home, by decide, by decide⟩

end Layout

end UberPackage
