/-
  What the corrected documents say, field by field.

  A plan over texts (`Plan.Spelling`) sets versions for libraries only, ranges for the bundle only,
  and prunes what is bundled and not required.  So the corrected manifest has the libraries at their
  versions and the bundle at its ranges, and everything else as it was (`Plan.Repairs`); and the
  corrected workspace has the old entries and those of the plan (`Plan.Extends`).  New fields come
  behind those that are there (`Fields.keys_prefix_corrected`, `Fields.keys_prefix_addNohoist`).
-/
import UberPackage.Proofs.Dependency.Convergence

namespace UberPackage

namespace Text

theorem nodup_union {ts : List Text} (h : ts.Nodup) (others : List Text) :
    (union ts others).Nodup := by
  induction others generalizing ts with
  | nil => exact h
  | cons o others ih =>
    rw [union, List.foldl_cons, ← union]
    refine ih ?_
    split
    · exact h
    · next ho =>
      have hapart : List.Disjoint ts [o] := fun t ht hto => ho (List.mem_singleton.mp hto ▸ ht)
      exact h.append (List.nodup_singleton o) hapart

/-- Texts of which none stands twice are sorted strictly. -/
theorem strict_sort {ts : List Text} (h : ts.Nodup) :
    (sort ts).Pairwise fun s t => lt s t = true := by
  have hnodup : (sort ts).Nodup := (sort_perm ts).nodup_iff.mpr h
  refine ((sorted_sort ts).and hnodup).imp fun {s t} hst => ?_
  rw [lt, hst.1, Bool.true_and, bne_iff_ne]
  exact hst.2

end Text

namespace Fields

/-! ## The order of fields -/

/-- A field that is set stays in its place or comes behind all others. -/
theorem keys_prefix_set (key : Text) (value : Json) (fs : Fields) :
    fs.keys <+: (set key value fs).keys := by
  induction fs with
  | nil => exact List.nil_prefix
  | cons f fs ih =>
    obtain ⟨k, v⟩ := f
    rw [set]
    split
    · exact List.prefix_refl _
    · exact (List.prefix_cons_inj k).mpr ih

theorem keys_prefix_setRanges (u : Fields) (field : Text) (entries : Fields) :
    u.keys <+: (u.setRanges field entries).keys := by
  rw [setRanges]
  split
  · exact List.prefix_refl _
  · exact keys_prefix_set _ _ _

theorem keys_prefix_addNames (u : Fields) (additions : List Text) :
    u.keys <+: (u.addNames additions).keys := by
  rw [addNames]
  split
  · exact List.prefix_refl _
  · exact keys_prefix_set _ _ _

theorem keys_prefix_pruneRanges (u : Fields) (pruned : List Text) :
    u.keys <+: (u.pruneRanges pruned).keys := by
  rw [pruneRanges]
  split
  · split
    · exact List.prefix_refl _
    · exact keys_prefix_set _ _ _
  · exact List.prefix_refl _

theorem keys_prefix_pruneNames (u : Fields) (pruned : List Text) :
    u.keys <+: (u.pruneNames pruned).keys := by
  rw [pruneNames]
  split
  · exact List.prefix_refl _
  · split
    · exact List.prefix_refl _
    · exact keys_prefix_set _ _ _

theorem keys_prefix_corrected (u dev : Fields) (additions : List Text) (deps : Fields)
    (pruned : List Text) :
    u.keys <+: (u.corrected dev additions deps pruned).keys := by
  have hdev := keys_prefix_setRanges u "devDependencies" dev
  have hnames := hdev.trans (keys_prefix_addNames _ additions)
  have hdeps := hnames.trans (keys_prefix_setRanges _ "dependencies" deps)
  have hpruned := hdeps.trans (keys_prefix_pruneRanges _ pruned)
  exact hpruned.trans (keys_prefix_pruneNames _ pruned)

theorem keys_prefix_addNohoist (w : Fields) (entries : List Text) :
    w.keys <+: (w.addNohoist entries).keys := by
  rw [addNohoist]
  split
  · exact List.prefix_refl _
  · exact keys_prefix_set _ _ _

/-- The entries that are not hoisted are sorted, each of them once, when some have been added. -/
theorem strict_nohoist_addNohoist (w : Fields) {entries : List Text} (h : entries ≠ []) :
    (w.addNohoist entries).nohoist.Pairwise fun s t => Text.lt s t = true := by
  rw [addNohoist, if_neg h, nohoist, get?_set_self, WorkspaceCorrections.settings, texts_set_self]
  exact Text.strict_sort (Text.nodup_union List.nodup_nil _)

end Fields

/-! ## Plans over texts -/

namespace Plan

/-- A plan over texts: its bundle and its findings, and what these set, add and prune. -/
structure Spelling (libraries : List Library) (u w : Fields) (p : Plan) where
  bundle : Fields
  found : List Finding
  versions : Fields
  additions : List Text
  ranges : Fields
  spurious : List Text
  bundle_eq : p.bundle = Mapping.ofFields bundle
  manifest_eq :
    p.manifest = .ofTexts (Fields.update [] versions) additions (Fields.update [] ranges) spurious
  nohoist_eq : p.workspace.nohoist = (found.flatMap Finding.entries).map .str
  nodup : bundle.keys.Nodup
  texts : ∀ f ∈ bundle, f.2.isText = true
  sound : ∀ f ∈ found, f.Sound libraries (Mapping.ofFields bundle) (u.names.map .str)
  complete : ∀ c ∈ Finding.checks libraries u (.obj w) (Mapping.ofFields bundle),
    c = .ok none ∨ ∃ f ∈ found, c = .ok (some f)
  versions_eq : found.filterMap Finding.version? = Mapping.ofFields versions
  additions_eq : found.filterMap Finding.addition? = additions.map .str
  ranges_eq : found.filterMap Finding.range? = Mapping.ofFields ranges
  spurious_eq : found.filterMap Finding.spurious? = spurious.map .str

variable {libraries : List Library} {u w : Fields} {p : Plan}

/-- The findings are those of the checks, and no others. -/
def Spelling.Exact (s : Spelling libraries u w p) : Prop :=
  ∀ f, f ∈ s.found ↔ .ok (some f) ∈ Finding.checks libraries u (.obj w) (Mapping.ofFields s.bundle)

theorem exists_exact (texts : ∀ l ∈ libraries, l.HasTextRanges) (hu : u.IsUber) (hw : w.IsWorkspace)
    (h : (make libraries (.obj u) (.obj w)).2 = .ok p) :
    ∃ s : Spelling libraries u w p, s.Exact := by
  obtain ⟨bundle, hb, hf, rfl⟩ := make_eq_ok.mp h
  obtain ⟨bs, rfl, hd, ht⟩ := Bundle.isTexts_collect texts hb
  have hs := fun f => Finding.sound_of_mem_found hu hw hf (f := f)
  obtain ⟨versions, additions, ranges, spurious, hv, ha, hr, hp, hcorr⟩ :=
    ManifestCorrections.ofFindings_eq_ofTexts fun f hm => namesText_of_sound (hs f hm)
  exact ⟨⟨bs, _, versions, additions, ranges, spurious, rfl, hcorr, rfl, hd, ht, hs,
    Finding.silent_or_found hf, hv, ha, hr, hp⟩, fun f => Survey.mem_found hf⟩

theorem nonempty_spelling (texts : ∀ l ∈ libraries, l.HasTextRanges) (hu : u.IsUber)
    (hw : w.IsWorkspace) (h : (make libraries (.obj u) (.obj w)).2 = .ok p) :
    Nonempty (Spelling libraries u w p) :=
  (exists_exact texts hu hw h).nonempty

namespace Spelling

variable (s : Spelling libraries u w p)

/-- The corrected manifest. -/
def manifest : Fields :=
  u.corrected (Fields.update [] s.versions) s.additions (Fields.update [] s.ranges) s.spurious

/-- The corrected workspace. -/
def workspace : Fields := w.addNohoist (s.found.flatMap Finding.entries)

theorem apply_manifest (hu : u.IsUber) : p.manifest.apply (.obj u) = .ok (.obj s.manifest) := by
  rw [s.manifest_eq]
  exact ManifestCorrections.apply_ofTexts _ _ _ _ hu fun hnull _ =>
    spurious_eq_nil s.sound s.spurious_eq hnull

theorem apply_workspace (hw : w.IsWorkspace) :
    p.workspace.apply (.obj w) = .ok (.obj s.workspace) := by
  have hp : p.workspace = ⟨(s.found.flatMap Finding.entries).map .str⟩ :=
    congrArg WorkspaceCorrections.mk s.nohoist_eq
  rw [hp]
  exact WorkspaceCorrections.apply_ofTexts hw _

/-- A check finds nothing, or what it finds has been found. -/
abbrev Answers (c : Check) : Prop := c = .ok none ∨ ∃ f ∈ s.found, c = .ok (some f)

theorem answers (hu : u.IsUber) (hw : w.IsWorkspace) :
    (∀ l ∈ libraries, s.Answers
      (Finding.checkVersion (Json.orElse (u.get? "devDependencies") (.obj [])) l)) ∧
      (∀ e ∈ s.bundle, s.Answers (Finding.checkBundled (u.names.map .str) (.str e.1) e.2) ∧
        s.Answers (Finding.checkRange (Json.orElse (u.get? "dependencies") (.obj []))
          (.str e.1) e.2)) ∧
      ∀ t ∈ u.names, s.Answers (Finding.checkRequired (Mapping.ofFields s.bundle) (.str t)) := by
  obtain ⟨hversions, -, hbundle, -, hrequired⟩ :=
    (Finding.forall_mem_checks (Finding.nohoist_eq hw) (Finding.bundledNames_eq hu)).mp s.complete
  exact ⟨hversions, fun e he => (hbundle _ (Mapping.mem_ofFields.mpr he)).2,
    fun t ht => hrequired _ (List.mem_map_of_mem ht)⟩

/-! ## What is set, added and pruned -/

/-- Versions are set for libraries only. -/
theorem mem_library_of_version {name : Text} {version : Json} (h : (name, version) ∈ s.versions) :
    ∃ l ∈ libraries, l.name = name := by
  rw [← Mapping.mem_ofFields, ← s.versions_eq] at h
  obtain ⟨l, hl, he⟩ := Finding.exists_library_of_version s.sound h
  exact ⟨l, hl, (Json.str.inj (Prod.mk.inj he).1).symm⟩

/-- Ranges are set for the bundle only. -/
theorem mem_bundle_of_range {e : Text × Json} (h : e ∈ s.ranges) : e ∈ s.bundle := by
  rw [← Mapping.mem_ofFields, ← s.ranges_eq] at h
  exact Mapping.mem_ofFields.mp (Finding.mem_bundle_of_range s.sound h)

/-- What is pruned are the bundled names that nothing requires. -/
theorem mem_spurious_iff (hu : u.IsUber) (hw : w.IsWorkspace) {t : Text} :
    t ∈ s.spurious ↔ t ∈ u.names ∧ Fields.get? t s.bundle = none := by
  have hmem : t ∈ s.spurious ↔ .str t ∈ s.found.filterMap Finding.spurious? := by
    rw [s.spurious_eq, List.mem_map]
    exact ⟨fun h => ⟨t, h, rfl⟩, fun ⟨_, h, he⟩ => Json.str.inj he ▸ h⟩
  rw [hmem]
  constructor
  · intro h
    obtain ⟨hname, hnone⟩ := Finding.mem_names_of_spurious s.sound h
    obtain ⟨t', ht', he⟩ := List.mem_map.mp hname
    rw [Mapping.get?_ofFields] at hnone
    exact ⟨Json.str.inj he ▸ ht', hnone⟩
  · rintro ⟨hname, hnone⟩
    rcases (s.answers hu hw).2.2 t hname with hsilent | ⟨f, hf, hfound⟩
    · rw [Finding.checkRequired, Mapping.get?_ofFields, hnone] at hsilent
      exact absurd (Except.ok.inj hsilent) (by simp)
    · exact List.mem_filterMap.mpr ⟨f, hf, by rw [(Finding.eq_of_checkRequired hfound).1]; rfl⟩

/-- The corrected manifest bundles what the bundle has. -/
theorem mem_names_manifest (hu : u.IsUber) (hw : w.IsWorkspace) {t : Text} :
    t ∈ s.manifest.names ↔ t ∈ s.bundle.keys := by
  have hsome : ∀ {t}, (Fields.get? t s.bundle).isSome = true ↔ t ∈ s.bundle.keys := fun {t} => by
    rw [Option.isSome_iff_ne_none, Ne, Fields.get?_eq_none_iff, not_not]
  rw [manifest, Fields.mem_names_corrected, s.mem_spurious_iff hu hw, ← hsome]
  constructor
  · rintro ⟨hname | hadded, hkept⟩
    · exact Option.isSome_iff_ne_none.mpr fun hnone => hkept ⟨hname, hnone⟩
    · exact Finding.isSome_of_mem_additions s.sound s.additions_eq hadded
  · intro h
    obtain ⟨e, he, rfl⟩ := List.mem_map.mp (hsome.mp h)
    refine ⟨?_, fun hpruned => ?_⟩
    · exact Finding.mem_names_or_additions s.additions_eq ((s.answers hu hw).2.1 e he).1
    · rw [hpruned.2] at h
      exact absurd h (by decide)

end Spelling

/-! ## The corrected documents -/

/-- What the corrected manifest says: the libraries stand at their versions, the bundle is bundled
and stands at its ranges, and all else is as it was. -/
structure Repairs (libraries : List Library) (p : Plan) (before after : Fields) : Prop where
  wellTyped : after.IsUber
  version :
    ∀ l ∈ libraries, (after.ranges "devDependencies").get? l.name = some (.str l.manifest.version)
  otherVersion : ∀ name, (∀ l ∈ libraries, l.name ≠ name) →
    (after.ranges "devDependencies").get? name = (before.ranges "devDependencies").get? name
  /-- The names that are bundled are the keys of the bundle. -/
  bundled : ∀ v, v ∈ after.names.map Json.str ↔ v ∈ p.bundle.map Prod.fst
  range : ∀ name range, p.bundle.get? (.str name) = some range →
    (after.ranges "dependencies").get? name = some range
  /-- What was bundled and is not any more is no dependency. -/
  pruned : ∀ name ∈ before.names, p.bundle.get? (.str name) = none →
    (after.ranges "dependencies").get? name = none
  otherRange : ∀ name ∉ before.names, p.bundle.get? (.str name) = none →
    (after.ranges "dependencies").get? name = (before.ranges "dependencies").get? name
  frame :
    ∀ key : Text, key ≠ "devDependencies" → key ≠ "bundledDependencies" → key ≠ "dependencies" →
    after.get? key = before.get? key
  /-- Fields keep their order, and new ones come behind them. -/
  order : before.keys <+: after.keys

/-- What the corrected workspace says: the entries of the plan are not hoisted, and all else is as
it was. -/
structure Extends (p : Plan) (before after : Fields) : Prop where
  wellTyped : after.IsWorkspace
  nohoist :
    ∀ entry, entry ∈ after.nohoist ↔ entry ∈ before.nohoist ∨ .str entry ∈ p.workspace.nohoist
  unchanged : p.workspace.changed = false → after = before
  /-- With a correction the entries are sorted, and none stands twice. -/
  sorted : p.workspace.changed = true → after.nohoist.Pairwise fun s t => Text.lt s t = true
  /-- With a correction the workspaces are an object, and a plain list of them its packages. -/
  workspaces :
    p.workspace.changed = true → ∃ fs : Fields, after.get? "workspaces" = some (.obj fs) ∧
    (∀ packages, before.get? "workspaces" = some (.arr packages) →
      fs.keys = ["packages", "nohoist"] ∧ fs.get? "packages" = some (.arr packages)) ∧
    ∀ old : Fields, before.get? "workspaces" = some (.obj old) → old.keys <+: fs.keys ∧
      ∀ key : Text, key ≠ "nohoist" → fs.get? key = old.get? key
  frame : ∀ key : Text, key ≠ "workspaces" → after.get? key = before.get? key
  order : before.keys <+: after.keys

theorem Spelling.repairs (s : Spelling libraries u w p) (names : (libraries.map Library.name).Nodup)
    (hu : u.IsUber) (hw : w.IsWorkspace) : p.Repairs libraries u s.manifest := by
  obtain ⟨hversions, hbundle, -⟩ := s.answers hu hw
  have hget : ∀ name, p.bundle.get? (.str name) = s.bundle.get? name := fun name => by
    rw [s.bundle_eq, Mapping.get?_ofFields]
  -- neither set nor pruned
  have hrange : ∀ name, s.bundle.get? name = none → Fields.get? name s.ranges.reverse = none := by
    intro name hnone
    rw [Fields.get?_eq_none_iff] at hnone ⊢
    intro hmem
    obtain ⟨e, he, rfl⟩ := List.mem_map.mp hmem
    exact hnone (List.mem_map_of_mem (s.mem_bundle_of_range (List.mem_reverse.mp he)))
  exact {
    wellTyped := hu.corrected _ _ _ _
    version := fun l hl => by
      rw [manifest, Fields.get?_ranges_corrected_dev, Fields.get?_reverse_update_nil]
      exact Finding.get?_corrected_version names s.sound s.versions_eq hu.dev hl (hversions l hl)
    otherVersion := fun name hname => by
      have hnone : Fields.get? name s.versions.reverse = none := by
        refine Fields.get?_eq_none_iff.mpr fun hmem => ?_
        obtain ⟨e, he, rfl⟩ := List.mem_map.mp hmem
        obtain ⟨l, hl, hlname⟩ := s.mem_library_of_version (List.mem_reverse.mp he)
        exact hname l hl hlname
      rw [manifest, Fields.get?_ranges_corrected_dev, Fields.get?_reverse_update_nil, hnone,
        Option.none_or]
    bundled := fun v => by
      have hkeys : p.bundle.map Prod.fst = s.bundle.keys.map Json.str := by
        rw [s.bundle_eq]
        simp [Mapping.ofFields, Fields.keys]
      rw [hkeys, List.mem_map, List.mem_map]
      simp only [s.mem_names_manifest hu hw]
    range := fun name range h => by
      rw [hget] at h
      have hmem := Fields.mem_of_get? h
      have hkept : name ∉ s.spurious := fun hpruned => by
        rw [((s.mem_spurious_iff hu hw).mp hpruned).2] at h
        cases h
      rw [manifest, Fields.get?_ranges_corrected, if_neg hkept, Fields.get?_reverse_update_nil]
      exact Finding.get?_corrected_range s.nodup s.texts s.sound s.ranges_eq hu.dependencies hmem
        (hbundle _ hmem).2
    pruned := fun name hname hnone => by
      rw [hget] at hnone
      rw [manifest, Fields.get?_ranges_corrected,
        if_pos ((s.mem_spurious_iff hu hw).mpr ⟨hname, hnone⟩)]
    otherRange := fun name hname hnone => by
      rw [hget] at hnone
      have hkept : name ∉ s.spurious :=
        fun hpruned => hname ((s.mem_spurious_iff hu hw).mp hpruned).1
      rw [manifest, Fields.get?_ranges_corrected, if_neg hkept, Fields.get?_reverse_update_nil,
        hrange name hnone, Option.none_or]
    frame :=
      fun key hdev hbundled hdeps => Fields.get?_corrected_of_ne _ _ _ _ _ hdev hbundled hdeps
    order := Fields.keys_prefix_corrected _ _ _ _ _ }

/-- More entries that are not hoisted. -/
theorem Spelling.extends (s : Spelling libraries u w p) (hw : w.IsWorkspace) :
    p.Extends w s.workspace := by
  have hentries := s.nohoist_eq
  rw [Spelling.workspace]
  generalize s.found.flatMap Finding.entries = entries at hentries
  have hchanged : p.workspace.changed = true ↔ entries ≠ [] := by
    rw [WorkspaceCorrections.changed, hentries]
    cases entries <;> simp
  exact {
    wellTyped := hw.addNohoist entries
    nohoist := fun entry => by
      rw [Fields.mem_nohoist_addNohoist, hentries, List.mem_map]
      simp
    unchanged := fun h => by
      have hnil : entries = [] := by
        by_contra hne
        rw [hchanged.mpr hne] at h
        cases h
      rw [Fields.addNohoist, if_pos hnil]
    sorted := fun h => Fields.strict_nohoist_addNohoist w (hchanged.mp h)
    workspaces := fun h => by
      rw [Fields.addNohoist, if_neg (hchanged.mp h)]
      refine ⟨_, Fields.get?_set_self _ _ _, fun packages hlist => ?_, fun old hobject => ?_⟩
      · rw [hlist]
        exact ⟨rfl, rfl⟩
      · rw [hobject]
        exact ⟨Fields.keys_prefix_set _ _ _, fun key hkey => Fields.get?_set_of_ne hkey _ _⟩
    frame := fun key hkey => by
      rw [Fields.addNohoist]
      split
      · rfl
      · exact Fields.get?_set_of_ne hkey _ _
    order := Fields.keys_prefix_addNohoist w entries }

end Plan

end UberPackage
