/-
  Where redirected specifiers lead.

  The parts of a path are read back from its text (`Path.partsOf_join`), and the way to a path,
  appended to the directory that it is seen from, leads to the path (`Layout.resolve_dotted`).  So a
  specifier that has been redirected names the place of its module, in whatever directory it stands.
-/
import UberPackage.Layout
import UberPackage.Proofs.Path

namespace UberPackage

namespace Text

/-- The pieces around a separator are those before it and those behind it. -/
theorem splitOn_append (c : Char) (t u : Text) :
    (t ++ .char c :: u).splitOn c = t.splitOn c ++ u.splitOn c := by
  induction t with
  | nil =>
    obtain ⟨piece, rest, hu⟩ := List.exists_cons_of_ne_nil (splitOn_ne_nil c u)
    rw [List.nil_append, splitOn_cons hu, if_pos rfl, hu]
    rfl
  | cons x t ih =>
    obtain ⟨piece, rest, ht⟩ := List.exists_cons_of_ne_nil (splitOn_ne_nil c t)
    rw [ht] at ih
    rw [List.cons_append, splitOn_cons ih, splitOn_cons ht]
    split <;> rfl

end Text

namespace Path

/-! ## Text of paths, read back -/

theorem partsOf_append_slash (t u : Text) :
    partsOf (t ++ .char '/' :: u) = partsOf t ++ partsOf u := by
  rw [partsOf, Text.splitOn_append, List.filter_append, partsOf, partsOf]

/-- Something that a path can have between slashes. -/
def IsNamed (part : Text) : Prop := isPart part = true ∧ Code.char '/' ∉ part

theorem isNamed_of_isComponent {part : Text} (h : part.IsComponent) : IsNamed part := by
  refine ⟨?_, h.no_slash⟩
  rw [isPart, Bool.and_eq_true, bne_iff_ne, bne_iff_ne]
  exact ⟨h.ne_nil, h.ne_dot⟩

theorem isNamed_dots : IsNamed ".." := ⟨by decide, by decide⟩

theorem partsOf_join {parts : List Text} (h : ∀ part ∈ parts, IsNamed part) :
    partsOf (Text.join "/" parts) = parts := by
  induction parts with
  | nil => rfl
  | cons part parts ih =>
    obtain ⟨hpart, hslash⟩ := h part List.mem_cons_self
    have hrest := ih fun q hq => h q (List.mem_cons_of_mem _ hq)
    have hfilter : [part].filter isPart = [part] := List.filter_cons_of_pos hpart
    cases parts with
    | nil => rw [Text.join, List.intercalate_singleton, partsOf_of_no_slash hslash, hfilter]
    | cons q parts =>
      have hjoin :
          Text.join "/" (part :: q :: parts) = part ++ .char '/' :: Text.join "/" (q :: parts) := by
        rw [Text.join, List.intercalate_cons_cons, List.append_assoc]
        rfl
      rw [hjoin, partsOf_append_slash, partsOf_of_no_slash hslash, hrest, hfilter]
      rfl

theorem head_join {parts : List Text} (h : ∀ part ∈ parts, IsNamed part) :
    (Text.join "/" parts).head? ≠ some (.char '/') := by
  cases parts with
  | nil => exact fun he => by cases he
  | cons part parts =>
    obtain ⟨hpart, hslash⟩ := h part List.mem_cons_self
    cases part with
    | nil => cases hpart
    | cons c part =>
      have hhead : (Text.join "/" ((c :: part) :: parts)).head? = some c := by
        cases parts with
        | nil => rw [Text.join, List.intercalate_singleton, List.head?_cons]
        | cons q parts =>
          rw [Text.join, List.intercalate_cons_cons, List.cons_append, List.cons_append,
            List.head?_cons]
      rw [hhead]
      intro he
      exact hslash (Option.some.inj he ▸ List.mem_cons_self)

/-! ## The way to a path -/

/-- What two lists have in common at their beginning is dropped from both. -/
theorem dropCommon_eq (xs ys : List Text) :
    ∃ common, xs = common ++ (dropCommon xs ys).1 ∧ ys = common ++ (dropCommon xs ys).2 := by
  induction xs generalizing ys with
  | nil => exact ⟨[], rfl, by cases ys <;> rfl⟩
  | cons x xs ih =>
    cases ys with
    | nil => exact ⟨[], rfl, rfl⟩
    | cons y ys =>
      rw [dropCommon]
      split
      · next hxy =>
        obtain ⟨common, hxs, hys⟩ := ih ys
        exact ⟨x :: common, congrArg (x :: ·) hxs, by rw [← hxy]; exact congrArg (x :: ·) hys⟩
      · exact ⟨[], rfl, rfl⟩

/-- The parts of the way from a directory to a path, both seen from a working directory. -/
def wayTo (target start cwd : Path) : List Text :=
  let (up, down) := dropCommon (start.resolve cwd).parts (target.resolve cwd).parts
  up.map (fun _ => (".." : Text)) ++ down

variable {start target : Path}

theorem relativeTo_eq (cwd : Path) : target.relativeTo start cwd =
    if wayTo target start cwd = [] then ("." : Text)
    else Text.join "/" (wayTo target start cwd) := by
  rw [relativeTo]
  dsimp only
  cases h : wayTo target start cwd with
  | nil =>
    rw [wayTo] at h
    dsimp only at h
    rw [h]
    rfl
  | cons part parts =>
    rw [wayTo] at h
    dsimp only at h
    rw [h]
    rfl

theorem mem_wayTo (hs : start.IsResolved) (ht : target.IsResolved) (cwd : Path) :
    ∀ part ∈ wayTo target start cwd, IsNamed part := by
  obtain ⟨common, -, hdown⟩ := dropCommon_eq start.parts target.parts
  intro part hpart
  rw [wayTo, hs.resolve, ht.resolve] at hpart
  rcases List.mem_append.mp hpart with hup | hmem
  · obtain ⟨_, -, rfl⟩ := List.mem_map.mp hup
    exact isNamed_dots
  · refine isNamed_of_isComponent (ht.parts part ?_)
    rw [hdown]
    exact List.mem_append_right _ hmem

theorem partsOf_relativeTo (hs : start.IsResolved) (ht : target.IsResolved) (cwd : Path) :
    partsOf (target.relativeTo start cwd) = wayTo target start cwd := by
  rw [relativeTo_eq]
  split
  · next hnil =>
    rw [hnil]
    rfl
  · exact partsOf_join (mem_wayTo hs ht cwd)

theorem head_relativeTo (hs : start.IsResolved) (ht : target.IsResolved) (cwd : Path) :
    (target.relativeTo start cwd).head? ≠ some (.char '/') := by
  rw [relativeTo_eq]
  split
  · exact fun he => by cases he
  · exact head_join (mem_wayTo hs ht cwd)

/-- Going up from a directory and down again arrives at the path. -/
theorem resolveParts_wayTo (hs : start.IsResolved) (ht : target.IsResolved) (cwd : Path) :
    resolveParts (start.parts ++ wayTo target start cwd) = target.parts := by
  obtain ⟨common, hup, hdown⟩ := dropCommon_eq start.parts target.parts
  rw [wayTo, hs.resolve, ht.resolve]
  dsimp only
  generalize (dropCommon start.parts target.parts).1 = up at hup ⊢
  generalize (dropCommon start.parts target.parts).2 = down at hdown ⊢
  have hback : ∀ (up stack : List Text),
      (up.map fun _ => (".." : Text)).foldl push (up ++ stack) = stack := by
    intro up
    induction up with
    | nil => exact fun _ => rfl
    | cons x up ih => exact fun stack => ih stack
  have hdots : ∀ part ∈ down, part ≠ ".." := fun part hpart =>
    ht.ne_dots part (hdown ▸ List.mem_append_right _ hpart)
  have hlength : (up.map fun _ => (".." : Text)) = (up.reverse.map fun _ => ("..": Text)) := by
    rw [List.map_const', List.map_const', List.length_reverse]
  rw [resolveParts, List.foldl_append, List.foldl_append, foldl_push hs.ne_dots, hup,
    List.reverse_append,
    List.append_assoc, hlength, hback, foldl_push hdots, List.append_nil, ← List.reverse_append,
    List.reverse_reverse, ← hdown]

end Path

namespace Layout

/-- The relative specifier of a path leads to the path. -/
theorem resolve_dotted {directory target : Path} (hd : directory.IsResolved)
    (ht : target.IsResolved) (seen cwd : Path) :
    (directory / dotted (target.relativeTo directory seen)).resolve cwd = target := by
  have hparts : Path.partsOf (dotted (target.relativeTo directory seen)) =
        Path.wayTo target directory seen ∧
      Path.anchorOf (dotted (target.relativeTo directory seen)) = .none := by
    rw [dotted]
    split
    · exact ⟨Path.partsOf_relativeTo hd ht seen,
        Path.anchorOf_of_head (Path.head_relativeTo hd ht seen)⟩
    · have hsplit : (↑"./" : Text) ++ target.relativeTo directory seen =
          [.char '.'] ++ .char '/' :: target.relativeTo directory seen := rfl
      refine ⟨?_, Path.anchorOf_of_head fun he => by cases he⟩
      rw [hsplit, Path.partsOf_append_slash, Path.partsOf_relativeTo hd ht]
      rfl
  have happend : directory / dotted (target.relativeTo directory seen) =
      directory.down (Path.wayTo target directory seen) := by
    show directory.append _ = _
    rw [Path.append, Path.ofText, hparts.1, hparts.2, Path.down]
  have habsolute : (directory.down (Path.wayTo target directory seen)).isAbsolute = true :=
    hd.isAbsolute
  rw [happend, Path.resolve, if_pos habsolute]
  have hresolved : (directory.down (Path.wayTo target directory seen)).parts =
      directory.parts ++ Path.wayTo target directory seen := rfl
  rw [hresolved, Path.resolveParts_wayTo hd ht, ← ht.anchor]

variable {layout : Layout} {l : Library} {specifier : Text}

theorem mem_of_provider? (h : layout.provider? specifier = some l) :
    l ∈ layout.libraries ∧ l.provides specifier = true := by
  rw [provider?] at h
  have hprovides := List.find?_some h
  exact ⟨List.mem_of_find?_eq_some h, hprovides⟩

/-- A specifier names its library or a module in it. -/
theorem specifier_cases (h : l.provides specifier = true) :
    specifier = l.name ∨ ∃ sub, specifier = l.name ++ (.char '/' :: sub) := by
  rw [Library.provides, Bool.or_eq_true, beq_iff_eq] at h
  refine h.imp_right fun hp => ?_
  obtain ⟨sub, hsub⟩ := List.isPrefixOf_iff_prefix.mp hp
  exact ⟨sub, by rw [← hsub, List.append_assoc]; rfl⟩

theorem place_name : layout.place l l.name = layout.directory l / ("index" : Text) := if_pos rfl

theorem place_below (sub : Text) :
    layout.place l (l.name ++ .char '/' :: sub) = layout.directory l / sub := by
  have hne : l.name ++ .char '/' :: sub ≠ l.name := fun he =>
    absurd (List.append_right_eq_self.mp he) (List.cons_ne_nil _ _)
  have hdrop : (l.name ++ .char '/' :: sub).drop (l.name.length + 1) = sub := by
    rw [show l.name ++ .char '/' :: sub = (l.name ++ [.char '/']) ++
      sub by rw [List.append_assoc]; rfl]
    exact List.drop_left' (by rw [List.length_append, List.length_singleton])
  rw [place, if_neg hne, hdrop]

end Layout

end UberPackage
