/-
  The paths that settings give.

  Whatever the file of settings says, the paths that a build works with are absolute and ordinary
  (`Settings.isResolved_of_load`).  The path under which a package is asked for may begin with the
  home of a user (`Path.expand_ok`); what is wrong with it is told by `Path.expand_error`.
-/
import UberPackage.Build
import UberPackage.Proofs.Act
import UberPackage.Proofs.Except
import UberPackage.Proofs.Path

namespace UberPackage

/-! ## Homes -/

theorem Homes.hasParts_pathOf (home : Text) : (Homes.pathOf home).HasParts := by
  rw [Homes.pathOf]
  split
  · exact fun _ hpart => absurd hpart List.not_mem_nil
  · exact Path.hasParts_ofText _

namespace Path

variable {p q : Path} {homes : Homes}

/-- A path is kept, or the home of a user stands in place of its first part. -/
theorem expand_ok (h : p.expand homes = .ok q) :
    q = p ∨ ∃ user rest home, p = ⟨.none, (.char '~' :: user) :: rest⟩ ∧
      homes.find? user = some home ∧
      q = { Homes.pathOf home with parts := (Homes.pathOf home).parts ++ rest } := by
  obtain ⟨anchor, parts⟩ := p
  rw [expand] at h
  split at h
  · next user rest hanchor hparts =>
    split at h
    · cases h
    · cases h
    · next home hname hhome =>
      split at h
      · cases h
      · exact Or.inr ⟨user, rest, home, congrArg₂ Path.mk hanchor hparts, hhome,
          (Except.ok.inj h).symm⟩
  · exact Or.inl (Except.ok.inj h).symm

/-- No home is known, or the name of the user is one that none can have. -/
theorem expand_error {f : SettingsFault} (h : p.expand homes = .error f) :
    f = .homeless ∨ ∃ e, f = .file e := by
  rw [expand] at h
  split at h
  · split at h
    · exact Or.inr ⟨_, (Except.error.inj h).symm⟩
    · exact Or.inl (Except.error.inj h).symm
    · split at h
      · exact Or.inl (Except.error.inj h).symm
      · cases h
  · cases h

/-- Without a home, a path that begins with one leads nowhere. -/
theorem expand_homeless {user : Text} {rest : List Text} (hname : Homes.nameFault? user = none)
    (hhome : homes.find? user = none) :
    (Path.mk .none ((.char '~' :: user) :: rest)).expand homes = .error .homeless := by
  simp only [expand, hname, hhome]

theorem HasParts.expand (hp : p.HasParts) (h : p.expand homes = .ok q) : q.HasParts := by
  rcases expand_ok h with rfl | ⟨user, rest, home, rfl, -, rfl⟩
  · exact hp
  · intro part hpart
    rcases List.mem_append.mp hpart with hhome | hrest
    · exact Homes.hasParts_pathOf home part hhome
    · exact hp part (List.mem_cons_of_mem _ hrest)

end Path

namespace Settings

/-! ## Paths -/

/-- The paths that a build works with are resolved. -/
structure IsResolved (s : Settings) : Prop where
  librariesRoot : s.librariesRoot.IsResolved
  workspacePath : s.workspacePath.IsResolved
  manifestPath : s.manifestPath.IsResolved
  outputDir : s.outputDir.IsResolved

variable {root : Path}

theorem isResolved_below (h : root.HasParts) (parts : List Text) :
    (below root parts).IsResolved := by
  have hfold : ∀ (parts : List Text) (p : Path), p.HasParts →
      (parts.foldl (fun p t => p / t) p).HasParts := by
    intro parts
    induction parts with
    | nil => exact fun p hp => hp
    | cons t parts ih => exact fun p hp => ih (p / t) (hp.div t)
  exact Path.isResolved_resolve (hfold parts root h) h

theorem isResolved_defaults (h : root.IsResolved) : (defaults root).IsResolved where
  librariesRoot := isResolved_below h.hasParts _
  workspacePath := isResolved_below h.hasParts _
  manifestPath := h.child (by decide)
  outputDir := h.child (by decide)

theorem isResolved_pathOf (h : root.HasParts) {t : Text} {p : Path} (hp : pathOf root t = .ok p) :
    p.IsResolved := by
  rw [pathOf] at hp
  split at hp
  · rw [← Except.ok.inj hp]
    exact Path.isResolved_resolve (h.div t) h
  · rw [← Except.ok.inj hp]
    exact Path.isResolved_resolve (h.div t) h
  · cases hp

theorem isResolved_path? (h : root.HasParts) {ps : List (Yaml.Value × Yaml.Value)} {key : Text}
    {default p : Path} (hd : default.IsResolved) (hp : path? root ps key default = .ok p) :
    p.IsResolved := by
  rw [path?] at hp
  split at hp
  · rw [← Except.ok.inj hp]
    exact hd
  · rw [except_bind_eq_ok] at hp
    obtain ⟨t, -, hp⟩ := hp
    split at hp
    · rw [← Except.ok.inj hp]
      exact hd
    · split at hp
      · rw [← Except.ok.inj hp]
        exact hd
      · exact isResolved_pathOf h hp

theorem isResolved_ofPairs (h : root.IsResolved) {ps : List (Yaml.Value × Yaml.Value)}
    {s : Settings} (hs : ofPairs root ps = .ok s) : s.IsResolved := by
  have hd := isResolved_defaults h
  simp only [ofPairs, except_bind_eq_ok] at hs
  obtain ⟨l, hl, w, hw, m, hm, o, ho, _, -, _, -, _, -, _, -, _, -, hs⟩ := hs
  rw [← Except.ok.inj hs]
  exact ⟨isResolved_path? h.hasParts hd.librariesRoot hl,
    isResolved_path? h.hasParts hd.workspacePath hw,
    isResolved_path? h.hasParts hd.manifestPath hm, isResolved_path? h.hasParts hd.outputDir ho⟩

theorem isResolved_ofText (h : root.IsResolved) {file : Text} {cs : List Char} {s : Settings}
    (hs : ofText root file cs = .ok s) : s.IsResolved := by
  rw [ofText] at hs
  split at hs
  · exact isResolved_ofPairs h hs
  · split at hs
    · cases hs
    · cases hs
    · next v _ =>
      unfold ofValue at hs
      split at hs
      · exact isResolved_ofPairs h hs
      · cases v with
        | mapping ps => exact isResolved_ofPairs h hs
        | _ => cases hs

theorem locate_does {p : Path} (hp : p.HasParts) {homes : Homes} {w w' : World} {file : Path}
    (hcwd : ∀ n ∈ w.disk.cwd, Text.IsComponent n) (h : Act.Does (locate p homes) w file w') :
    file.IsResolved ∧ w' = w := by
  rw [locate, Act.does_bind] at h
  obtain ⟨p, v, hv, h⟩ := h
  obtain ⟨hexpand, rfl⟩ := Act.does_orFail.mp hv
  have hp := hp.expand hexpand
  rw [Act.does_bind] at h
  obtain ⟨b, v, hb, h⟩ := h
  obtain ⟨-, rfl⟩ := Act.does_ask.mp hb
  have hresolved : ∀ (q : Path), q.HasParts →
      Act.Does (do return (← get).disk.resolve q) w file w' → file.IsResolved ∧ w' = w := by
    intro q hq h
    rw [Act.does_bind] at h
    obtain ⟨v, v', hv, h⟩ := h
    obtain ⟨rfl, rfl⟩ := Act.does_get.mp hv
    obtain ⟨rfl, rfl⟩ := Act.does_pure.mp h
    exact ⟨Path.isResolved_resolve hq fun n hn => Or.inr (hcwd n hn), rfl⟩
  have hfile : (if b then p / fileName else p).HasParts := by
    split
    · exact hp.div _
    · exact hp
  generalize (if b then p / fileName else p) = q at h hfile
  dsimp only at h
  split at h
  · exact hresolved q hfile h
  · exact hresolved q hfile h
  · exact absurd h Act.does_throw

/-- Loaded settings work with paths that are absolute and ordinary. -/
theorem isResolved_of_load {p : Path} (hp : p.HasParts) {homes : Homes} {w w' : World}
    {s : Settings} (hcwd : ∀ n ∈ w.disk.cwd, Text.IsComponent n)
    (h : Act.Does (load p homes) w s w') : s.IsResolved := by
  rw [load, Act.does_bind] at h
  obtain ⟨file, v, hfile, h⟩ := h
  obtain ⟨hr, rfl⟩ := locate_does hp hcwd hfile
  rw [Act.does_bind] at h
  obtain ⟨b, v', -, h⟩ := h
  cases b with
  | false =>
    obtain ⟨rfl, -⟩ := Act.does_pure.mp h
    exact isResolved_defaults hr.parent
  | true =>
    rw [if_pos rfl, Act.does_bind] at h
    obtain ⟨t, u, -, h⟩ := h
    exact isResolved_ofText hr.parent (Act.does_orFail.mp h).1

end Settings

end UberPackage
