/-
  What is found is exactly what differs.

  A check finds something if and only if its requirement is not met (`Finding.checkVersion_iff` and
  those after it), and what a survey finds comes from one of its checks (`Finding.mem_checks_iff`).
  So a plan over texts sets the versions and ranges that are not there, adds the names that are not
  bundled and prunes those that nothing requires, and nothing else (`Plan.Spelling.Exact`); and
  well-typed documents have a plan whenever the libraries have a bundle (`Plan.exists_make_iff`).
-/
import UberPackage.Proofs.Dependency.Repair

namespace UberPackage

namespace Finding

/-! ## One check -/

section OneCheck

variable {f : Finding}

theorem checkVersion_iff {dev : Fields} {l : Library} {e : Json × Json} :
    (∃ f, checkVersion (.obj dev) l = .ok (some f) ∧ f.version? = some e) ↔
      e = (.str l.name, .str l.manifest.version) ∧
      dev.get? l.name ≠ some (.str l.manifest.version) := by
  rw [checkVersion]
  split
  · next hnone =>
    rw [hnone]
    simp [version?, eq_comm]
  · next found hfound =>
    rw [hfound]
    split
    · next hsame => simp [Json.eq_of_same_str hsame]
    · next hdiffers =>
      have hne : found ≠ .str l.manifest.version := by
        rintro rfl
        simp at hdiffers
      simp [version?, eq_comm, hne]

theorem checkNohoist_iff {entries : List Text} {entry : Text} :
    checkNohoist (entries.map .str) entry = .ok (some f) ↔ f = hoisted entry ∧ entry ∉ entries := by
  rw [checkNohoist, Json.isIn_map_str]
  by_cases h : entry ∈ entries <;> simp [h, eq_comm]

theorem checkBundled_iff {names : List Text} {name : Text} {range : Json} :
    checkBundled (names.map .str) (.str name) range = .ok (some f) ↔
      f = unbundled (.str name) range ∧ name ∉ names := by
  rw [checkBundled, Json.isIn_map_str]
  by_cases h : name ∈ names <;> simp [h, eq_comm]

/-- A range that is a text is told from all others, and from none. -/
theorem checkRange_iff {dependencies : Fields} {name range : Text} :
    checkRange (.obj dependencies) (.str name) (.str range) = .ok (some f) ↔
      f = wrongRange (.str name) (.str range) ∧ dependencies.get? name ≠ some (.str range) := by
  rw [checkRange, Mapping.get?_ofFields]
  split
  · next hsame =>
    have hrange := Json.eq_of_same_str hsame
    cases hget : dependencies.get? name with
    | none => rw [hget] at hrange; cases hrange
    | some found =>
      rw [hget, Option.getD_some] at hrange
      simp [hrange]
  · next hdiffers =>
    have hne : dependencies.get? name ≠ some (.str range) := fun h => by
      rw [h] at hdiffers
      simp at hdiffers
    simp [hne, eq_comm]

end OneCheck

/-! ## All checks -/

variable {libraries : List Library} {u : Fields} {workspace : Json} {bundle : Bundle} {f : Finding}

/-- What checks find comes from a library, from a name of the bundle or from a bundled name. -/
theorem mem_checks_iff {entries names : List Json} (he : nohoist workspace = .ok entries)
    (hn : bundledNames u = .ok names) :
    .ok (some f) ∈ checks libraries u workspace bundle ↔
      (∃ l ∈ libraries, checkVersion (Json.orElse (u.get? "devDependencies") (.obj [])) l =
        .ok (some f)) ∨
      (∃ e ∈ bundle, checkNohoist entries (nohoistEntry (Manifest.mk u).name e.1) = .ok (some f) ∨
        checkBundled names e.1 e.2 = .ok (some f) ∨
        checkRange (Json.orElse (u.get? "dependencies") (.obj [])) e.1 e.2 = .ok (some f)) ∨
      ∃ name ∈ names, checkRequired bundle name = .ok (some f) := by
  constructor
  · intro h
    refine (forall_mem_checks (P := fun c => c = .ok (some f) → _) he hn).mpr
      ⟨fun l hl h => Or.inl ⟨l, hl, h⟩, fun h => ?_,
      fun e he => ⟨fun h => ?_, fun h => ?_, fun h => ?_⟩, fun h => ?_,
      fun name hname h => Or.inr (Or.inr ⟨name, hname, h⟩)⟩ _ h rfl
    · cases h
    · exact Or.inr (Or.inl ⟨e, he, Or.inl h⟩)
    · exact Or.inr (Or.inl ⟨e, he, Or.inr (Or.inl h)⟩)
    · exact Or.inr (Or.inl ⟨e, he, Or.inr (Or.inr h)⟩)
    · rw [checkNames] at h
      split at h <;> cases h
  · obtain ⟨hversions, -, hbundle, -, hrequired⟩ :=
      (forall_mem_checks (P := (· ∈ checks libraries u workspace bundle)) he hn).mp fun _ h => h
    rintro (⟨l, hl, h⟩ | ⟨e, he, h | h | h⟩ | ⟨name, hname, h⟩)
    · exact h ▸ hversions l hl
    · exact h ▸ (hbundle e he).1
    · exact h ▸ (hbundle e he).2.1
    · exact h ▸ (hbundle e he).2.2
    · exact h ▸ hrequired name hname

/-- The entries of findings are the pairs of those that must not be hoisted. -/
theorem mem_entries {found : List Finding} {t : Text} :
    t ∈ found.flatMap entries ↔ ∃ entry, hoisted entry ∈ found ∧
    (t = entry ∨ t = entry ++ "/**") := by
  rw [List.mem_flatMap]
  constructor
  · rintro ⟨f, hf, ht⟩
    cases f with
    | hoisted entry => exact ⟨entry, hf, List.mem_pair.mp ht⟩
    | _ => cases ht
  · rintro ⟨entry, hf, ht⟩
    exact ⟨_, hf, List.mem_pair.mpr ht⟩

/-- The entries that are missing belong to names of the bundle. -/
theorem mem_checks_hoisted {w : Fields} {names : List Json} (hw : w.IsWorkspace)
    (hn : bundledNames u = .ok names) {entry : Text} :
    .ok (some (hoisted entry)) ∈ checks libraries u (.obj w) bundle ↔
      ∃ e ∈ bundle, entry = nohoistEntry (Manifest.mk u).name e.1 ∧ entry ∉ w.nohoist := by
  rw [mem_checks_iff (nohoist_eq hw) hn]
  constructor
  · rintro (⟨l, -, h⟩ | ⟨e, he, h | h | h⟩ | ⟨name, -, h⟩)
    · rcases eq_of_checkVersion h with h | ⟨_, h⟩ <;> cases h
    · obtain ⟨hentry, hmissing⟩ := checkNohoist_iff.mp h
      obtain rfl := hoisted.inj hentry
      exact ⟨e, he, rfl, hmissing⟩
    · cases eq_of_checkBundled h
    · cases eq_of_checkRange h
    · cases (eq_of_checkRequired h).1
  · rintro ⟨e, he, rfl, hmissing⟩
    exact Or.inr (Or.inl ⟨e, he, Or.inl (checkNohoist_iff.mpr ⟨rfl, hmissing⟩)⟩)

end Finding

/-! ## Plans over texts -/

namespace Plan

variable {libraries : List Library} {u w : Fields} {p : Plan}

namespace Spelling.Exact

variable {s : Spelling libraries u w p} (hs : s.Exact) (hu : u.IsUber) (hw : w.IsWorkspace)
include hs hu hw

/-- What is found comes from a library, from a name of the bundle or from a bundled name. -/
theorem mem_found {f : Finding} :
    f ∈ s.found ↔
      (∃ l ∈ libraries, Finding.checkVersion (.obj (u.ranges "devDependencies")) l = .ok (some f)) ∨
      (∃ e ∈ s.bundle,
        Finding.checkNohoist (w.nohoist.map .str)
          (Finding.nohoistEntry (Manifest.mk u).name (.str e.1)) = .ok (some f) ∨
        Finding.checkBundled (u.names.map .str) (.str e.1) e.2 = .ok (some f) ∨
        Finding.checkRange (.obj (u.ranges "dependencies")) (.str e.1) e.2 = .ok (some f)) ∨
      ∃ t ∈ u.names, Finding.checkRequired (Mapping.ofFields s.bundle) (.str t) = .ok (some f) := by
  rw [hs f, Finding.mem_checks_iff (Finding.nohoist_eq hw) (Finding.bundledNames_eq hu),
    Fields.orElse_ranges hu.dev, Fields.orElse_ranges hu.dependencies]
  simp only [Mapping.ofFields, List.mem_map, exists_exists_and_eq_and]

/-- Versions are set for the libraries that do not stand at theirs. -/
theorem mem_versions {e : Text × Json} :
    e ∈ s.versions ↔ ∃ l ∈ libraries, e = (l.name, .str l.manifest.version) ∧
      (u.ranges "devDependencies").get? l.name ≠ some (.str l.manifest.version) := by
  rw [← Mapping.mem_ofFields, ← s.versions_eq, List.mem_filterMap]
  constructor
  · rintro ⟨f, hf, he⟩
    rcases (hs.mem_found hu hw).mp hf with ⟨l, hl, h⟩ | ⟨e, -, h | h | h⟩ | ⟨t, -, h⟩
    · obtain ⟨heq, hdiffers⟩ := Finding.checkVersion_iff.mp ⟨f, h, he⟩
      obtain ⟨hname, hversion⟩ := Prod.mk.inj heq
      exact ⟨l, hl, Prod.ext (Json.str.inj hname) hversion, hdiffers⟩
    · cases Finding.eq_of_checkNohoist h ▸ he
    · cases Finding.eq_of_checkBundled h ▸ he
    · cases Finding.eq_of_checkRange h ▸ he
    · cases (Finding.eq_of_checkRequired h).1 ▸ he
  · rintro ⟨l, hl, rfl, hdiffers⟩
    obtain ⟨f, h, he⟩ := Finding.checkVersion_iff.mpr ⟨rfl, hdiffers⟩
    exact ⟨f, (hs.mem_found hu hw).mpr (Or.inl ⟨l, hl, h⟩), he⟩

/-- Names are added that the bundle has and the manifest does not bundle. -/
theorem mem_additions {t : Text} : t ∈ s.additions ↔ t ∈ s.bundle.keys ∧ t ∉ u.names := by
  have hmem : t ∈ s.additions ↔ ∃ f ∈ s.found, f.addition? = some (.str t) := by
    rw [← List.mem_filterMap, s.additions_eq, List.mem_map]
    exact ⟨fun h => ⟨t, h, rfl⟩, fun ⟨_, h, he⟩ => Json.str.inj he ▸ h⟩
  rw [hmem]
  constructor
  · rintro ⟨f, hf, ht⟩
    rcases (hs.mem_found hu hw).mp hf with ⟨l, -, h⟩ | ⟨e, he, h | h | h⟩ | ⟨t, -, h⟩
    · rcases Finding.eq_of_checkVersion h with rfl | ⟨_, rfl⟩ <;> cases ht
    · cases Finding.eq_of_checkNohoist h ▸ ht
    · obtain ⟨rfl, hmissing⟩ := Finding.checkBundled_iff.mp h
      obtain rfl := Json.str.inj (Option.some.inj ht)
      exact ⟨List.mem_map_of_mem he, hmissing⟩
    · cases Finding.eq_of_checkRange h ▸ ht
    · cases (Finding.eq_of_checkRequired h).1 ▸ ht
  · rintro ⟨hkey, hmissing⟩
    obtain ⟨e, he, rfl⟩ := List.mem_map.mp hkey
    have hfound : Finding.checkBundled (u.names.map .str) (.str e.1) e.2 =
        .ok (some (.unbundled (.str e.1) e.2)) :=
      Finding.checkBundled_iff.mpr ⟨rfl, hmissing⟩
    exact ⟨_, (hs.mem_found hu hw).mpr (Or.inr (Or.inl ⟨e, he, Or.inr (Or.inl hfound)⟩)), rfl⟩

/-- Ranges are set that the bundle has and the manifest does not. -/
theorem mem_ranges {e : Text × Json} :
    e ∈ s.ranges ↔ e ∈ s.bundle ∧ (u.ranges "dependencies").get? e.1 ≠ some e.2 := by
  have hmem : e ∈ s.ranges ↔ ∃ f ∈ s.found, f.range? = some (.str e.1, e.2) := by
    rw [← Mapping.mem_ofFields, ← s.ranges_eq, List.mem_filterMap]
  rw [hmem]
  constructor
  · rintro ⟨f, hf, hrange⟩
    rcases (hs.mem_found hu hw).mp hf with ⟨l, -, h⟩ | ⟨e', he, h | h | h⟩ | ⟨t, -, h⟩
    · rcases Finding.eq_of_checkVersion h with rfl | ⟨_, rfl⟩ <;> cases hrange
    · cases Finding.eq_of_checkNohoist h ▸ hrange
    · cases Finding.eq_of_checkBundled h ▸ hrange
    · obtain ⟨range, htext⟩ := Json.isText_iff.mp (s.texts e' he)
      rw [htext] at h
      obtain ⟨rfl, hdiffers⟩ := Finding.checkRange_iff.mp h
      obtain ⟨hname, hvalue⟩ := Prod.mk.inj (Option.some.inj hrange)
      obtain rfl : e' = e := Prod.ext (Json.str.inj hname) (htext.trans hvalue)
      exact ⟨he, htext ▸ hdiffers⟩
    · cases (Finding.eq_of_checkRequired h).1 ▸ hrange
  · rintro ⟨he, hdiffers⟩
    obtain ⟨range, htext⟩ := Json.isText_iff.mp (s.texts e he)
    have hfound := Finding.checkRange_iff.mpr ⟨rfl, htext ▸ hdiffers⟩
    refine ⟨_, (hs.mem_found hu hw).mpr
      (Or.inr (Or.inl ⟨e, he, Or.inr (Or.inr (htext ▸ hfound))⟩)), ?_⟩
    rw [htext]
    rfl

/-- Entries are added for names of the bundle whose own entry is missing. -/
theorem mem_entries {t : Text} :
    t ∈ s.found.flatMap Finding.entries ↔ ∃ name ∈ s.bundle.keys,
      Finding.nohoistEntry (Manifest.mk u).name (.str name) ∉ w.nohoist ∧
        (t = Finding.nohoistEntry (Manifest.mk u).name (.str name) ∨
          t = Finding.nohoistEntry (Manifest.mk u).name (.str name) ++ "/**") := by
  have hmem : ∀ entry, Finding.hoisted entry ∈ s.found ↔ ∃ name ∈ s.bundle.keys,
      entry = Finding.nohoistEntry (Manifest.mk u).name (.str name) ∧
      entry ∉ w.nohoist := fun entry => by
    rw [hs, Finding.mem_checks_hoisted hw (Finding.bundledNames_eq hu)]
    simp only [Mapping.ofFields, Fields.keys, List.mem_map, exists_exists_and_eq_and]
  rw [Finding.mem_entries]
  constructor
  · rintro ⟨entry, hf, ht⟩
    obtain ⟨name, hname, rfl, hmissing⟩ := (hmem entry).mp hf
    exact ⟨name, hname, hmissing, ht⟩
  · rintro ⟨name, hname, hmissing, ht⟩
    exact ⟨_, (hmem _).mpr ⟨name, hname, rfl, hmissing⟩, ht⟩

end Spelling.Exact

/-- For well-typed documents there is a plan whenever there is a bundle. -/
theorem exists_make_iff (hu : u.IsUber) (hw : w.IsWorkspace) :
    (∃ p, (make libraries (.obj u) (.obj w)).2 = .ok p) ↔
      ∃ bundle, Bundle.collect libraries = .ok bundle := by
  constructor
  · rintro ⟨p, hp⟩
    obtain ⟨bundle, hb, -⟩ := make_eq_ok.mp hp
    exact ⟨bundle, hb⟩
  · rintro ⟨bundle, hb⟩
    refine ⟨_, make_eq_ok.mpr ⟨bundle, hb, ?_, rfl⟩⟩
    rw [Survey.fault_eq_none_iff, Finding.forall_mem_checks (Finding.nohoist_eq hw)
      (Finding.bundledNames_eq hu),
      Fields.orElse_ranges hu.dev, Fields.orElse_ranges hu.dependencies]
    refine ⟨fun l _ => ?_, ⟨_, rfl⟩, fun e _ => ⟨⟨_, rfl⟩, ⟨_, rfl⟩, ?_⟩, ?_, fun _ _ => ⟨_, rfl⟩⟩
    · rw [Finding.checkVersion]
      split
      · exact ⟨_, rfl⟩
      · split <;> exact ⟨_, rfl⟩
    · rw [Finding.checkRange]
      split <;> exact ⟨_, rfl⟩
    · exact ⟨_, if_pos (Json.all_isKey_map_str _)⟩

end Plan

end UberPackage
