/-
  Corrections converge in one step.

  The findings of a survey are sound (`Finding.sound_of_mem_found`): each comes from a library, from
  the bundle or from a bundled name.  They are complete (`Finding.silent_or_found`): a check that
  finds nothing finds nothing in the corrected documents either, because no correction undoes
  another, and a finding's own correction answers its check.

  So all checks of the corrected documents are silent (`Finding.silent_of_corrected`), and a second
  plan has nothing to correct (`Plan.make_corrected`).
-/
import UberPackage.Proofs.Dependency.Plan

namespace UberPackage

namespace Fields

theorem get?_reverse_of_nodup {fs : Fields} (h : fs.keys.Nodup) (k : Text) :
    get? k fs.reverse = get? k fs := by
  cases hg : get? k fs with
  | none =>
    rw [get?_eq_none_iff] at hg ⊢
    simpa [keys] using hg
  | some v =>
    refine get?_of_mem_of_nodup ?_ (List.mem_reverse.mpr (mem_of_get? hg))
    rw [keys, List.map_reverse]
    exact List.nodup_reverse.mpr h

theorem nodup_keys_update (fs others : Fields) (h : fs.keys.Nodup) :
    (fs.update others).keys.Nodup := by
  induction others generalizing fs with
  | nil => exact h
  | cons f others ih => exact ih (fs.set f.1 f.2) (nodup_keys_set h)

/-- Entries set one after the other: the last one of a name counts. -/
theorem get?_reverse_update_nil (entries : Fields) (k : Text) :
    get? k (update [] entries).reverse = get? k entries.reverse := by
  rw [get?_reverse_of_nodup (nodup_keys_update [] entries List.nodup_nil), get?_update, get?,
    Option.or_none]

/-- Entries that give a name one value, or none. -/
theorem get?_reverse_of_unique {entries : Fields} {k : Text} {x : Json}
    (h : ∀ v, (k, v) ∈ entries → v = x) :
    get? k entries.reverse = some x ∨ (get? k entries.reverse = none ∧ ∀ v, (k, v) ∉ entries) := by
  cases hg : get? k entries.reverse with
  | some v => exact Or.inl (congrArg some (h v (List.mem_reverse.mp (mem_of_get? hg))))
  | none =>
    refine Or.inr ⟨rfl, fun v hm => get?_eq_none_iff.mp hg ?_⟩
    exact List.mem_map.mpr ⟨(k, v), List.mem_reverse.mpr hm, rfl⟩

end Fields

namespace Mapping

theorem mem_ofFields {k : Text} {v : Json} {fs : Fields} :
    (Json.str k, v) ∈ ofFields fs ↔ (k, v) ∈ fs := by
  simp [ofFields]

theorem forall_mem_ofFields {P : Json × Json → Prop} {fs : Fields} :
    (∀ e ∈ ofFields fs, P e) ↔ ∀ f ∈ fs, P (.str f.1, f.2) := List.forall_mem_map

end Mapping

namespace Finding

theorem bundledNames_eq {u : Fields} (h : u.IsUber) : bundledNames u = .ok (u.names.map .str) := by
  rw [bundledNames, Fields.orElse_texts h.bundled]
  rfl

theorem nohoist_eq {w : Fields} (h : w.IsWorkspace) :
    nohoist (.obj w) = .ok (w.nohoist.map .str) := by
  rw [nohoist, Json.fields, Fields.nohoist]
  dsimp only [bind, Except.bind]
  rcases hw : w.get? "workspaces" with _ | v
  · rfl
  · cases v with
    | obj fs =>
      dsimp only [WorkspaceCorrections.settings]
      rw [Fields.orElse_texts (h fs hw)]
      exact if_pos (Json.all_isKey_map_str _)
    | arr vs => simp [WorkspaceCorrections.settings, Fields.texts, Fields.get?, Text.ofString]; rfl
    | _ => rfl

/-! ## What a check can find -/

theorem eq_of_checkVersion {dev : Json} {l : Library} {f : Finding}
    (h : checkVersion dev l = .ok (some f)) :
    f = missing l.name l.manifest.version ∨
      ∃ found, f = wrongVersion l.name l.manifest.version found := by
  cases dev with
  | obj fs =>
    dsimp only [checkVersion] at h
    split at h
    · exact Or.inl (Option.some.inj (Except.ok.inj h)).symm
    · split at h
      · exact absurd (Except.ok.inj h) (by simp)
      · exact Or.inr ⟨_, (Option.some.inj (Except.ok.inj h)).symm⟩
  | arr vs =>
    dsimp only [checkVersion] at h
    split at h
    · exact absurd h (by simp)
    · exact Or.inl (Option.some.inj (Except.ok.inj h)).symm
  | str t =>
    dsimp only [checkVersion] at h
    split at h
    · exact absurd h (by simp)
    · exact Or.inl (Option.some.inj (Except.ok.inj h)).symm
  | _ => exact absurd h (by simp [checkVersion])

theorem eq_of_checkNohoist {entries : List Json} {entry : Text} {f : Finding}
    (h : checkNohoist entries entry = .ok (some f)) : f = hoisted entry := by
  rw [checkNohoist, Except.ok.injEq] at h
  split at h
  · exact absurd h (by simp)
  · exact (Option.some.inj h).symm

theorem eq_of_checkBundled {names : List Json} {name range : Json} {f : Finding}
    (h : checkBundled names name range = .ok (some f)) : f = unbundled name range := by
  rw [checkBundled, Except.ok.injEq] at h
  split at h
  · exact absurd h (by simp)
  · exact (Option.some.inj h).symm

theorem eq_of_checkRange {dependencies name range : Json} {f : Finding}
    (h : checkRange dependencies name range = .ok (some f)) : f = wrongRange name range := by
  cases dependencies with
  | obj fs =>
    dsimp only [checkRange] at h
    split at h
    · exact absurd (Except.ok.inj h) (by simp)
    · exact (Option.some.inj (Except.ok.inj h)).symm
  | _ => exact absurd h (by simp [checkRange])

theorem eq_of_checkRequired {bundle : Bundle} {name : Json} {f : Finding}
    (h : checkRequired bundle name = .ok (some f)) :
    f = spurious name ∧ bundle.get? name = none := by
  rw [checkRequired, Except.ok.injEq] at h
  split at h
  · exact absurd h (by simp)
  · next hb => exact ⟨(Option.some.inj h).symm, by simpa using hb⟩

/-! ## Sound and complete findings -/

/-- Where a finding comes from. -/
def Sound (libraries : List Library) (bundle : Bundle) (names : List Json) : Finding → Prop
  | missing name version | wrongVersion name version _ =>
    ∃ l ∈ libraries, l.name = name ∧ l.manifest.version = version
  | hoisted _ => True
  | unbundled name range | wrongRange name range => (name, range) ∈ bundle
  | spurious name => name ∈ names ∧ bundle.get? name = none

section Found

variable {libraries : List Library} {u w : Fields} {bundle : Bundle}

/-- Each finding comes from a library, from the bundle or from a bundled name. -/
theorem sound_of_mem {entries names : List Json} (he : nohoist (.obj w) = .ok entries)
    (hn : bundledNames u = .ok names)
    (hf : (Survey.run (checks libraries u (.obj w) bundle)).fault = none) {f : Finding}
    (hm : f ∈ (Survey.run (checks libraries u (.obj w) bundle)).found) :
    f.Sound libraries bundle names := by
  have hall : ∀ c ∈ checks libraries u (.obj w) bundle, ∀ f, c = .ok (some f) →
      f.Sound libraries bundle names := by
    rw [forall_mem_checks he hn]
    refine ⟨fun l hl f h => ?_, fun f h => absurd h (by simp), fun e he => ⟨fun f h => ?_,
      fun f h => ?_, fun f h => ?_⟩, fun f h => ?_, fun name hn f h => ?_⟩
    · rcases eq_of_checkVersion h with rfl | ⟨found, rfl⟩ <;> exact ⟨l, hl, rfl, rfl⟩
    · rw [eq_of_checkNohoist h]
      trivial
    · rw [eq_of_checkBundled h]
      exact he
    · rw [eq_of_checkRange h]
      exact he
    · rw [checkNames] at h
      split at h <;> exact absurd h (by simp)
    · obtain ⟨rfl, hb⟩ := eq_of_checkRequired h
      exact ⟨hn, hb⟩
  exact hall _ ((Survey.mem_found hf).mp hm) f rfl

theorem sound_of_mem_found (hu : u.IsUber) (hw : w.IsWorkspace)
    (hf : (Survey.run (checks libraries u (.obj w) bundle)).fault = none) {f : Finding}
    (hm : f ∈ (Survey.run (checks libraries u (.obj w) bundle)).found) :
    f.Sound libraries bundle (u.names.map .str) :=
  sound_of_mem (nohoist_eq hw) (bundledNames_eq hu) hf hm

theorem silent_or_found (hf : (Survey.run (checks libraries u (.obj w) bundle)).fault = none) :
    ∀ c ∈ checks libraries u (.obj w) bundle, c = .ok none ∨
      ∃ f ∈ (Survey.run (checks libraries u (.obj w) bundle)).found, c = .ok (some f) := by
  intro c hc
  obtain ⟨f, rfl⟩ := Survey.fault_eq_none_iff.mp hf c hc
  cases f with
  | none => exact Or.inl rfl
  | some f => exact Or.inr ⟨f, (Survey.mem_found hf).mpr hc, rfl⟩

end Found

/-! What a correction sets, adds or prunes is known from where its finding comes from. -/

section Sound

variable {libraries : List Library} {bundle : Bundle} {names : List Json} {found : List Finding}
  (hs : ∀ f ∈ found, f.Sound libraries bundle names)
include hs

theorem exists_library_of_version {e : Json × Json} (he : e ∈ found.filterMap version?) :
    ∃ l ∈ libraries, e = (.str l.name, .str l.manifest.version) := by
  obtain ⟨f, hm, hf⟩ := List.mem_filterMap.mp he
  have hsound := hs f hm
  cases f <;> simp only [version?, Option.some.injEq, reduceCtorEq] at hf
  all_goals
    obtain ⟨l, hl, rfl, rfl⟩ := hsound
    exact ⟨l, hl, hf.symm⟩

theorem mem_bundle_of_range {e : Json × Json} (he : e ∈ found.filterMap range?) : e ∈ bundle := by
  obtain ⟨f, hm, hf⟩ := List.mem_filterMap.mp he
  have hsound := hs f hm
  cases f <;> simp only [range?, Option.some.injEq, reduceCtorEq] at hf
  exact hf ▸ hsound

theorem exists_mem_bundle_of_addition {name : Json} (h : name ∈ found.filterMap addition?) :
    ∃ range, (name, range) ∈ bundle := by
  obtain ⟨f, hm, hf⟩ := List.mem_filterMap.mp h
  have hsound := hs f hm
  cases f <;> simp only [addition?, Option.some.injEq, reduceCtorEq] at hf
  exact hf ▸ ⟨_, hsound⟩

theorem mem_names_of_spurious {name : Json} (h : name ∈ found.filterMap spurious?) :
    name ∈ names ∧ bundle.get? name = none := by
  obtain ⟨f, hm, hf⟩ := List.mem_filterMap.mp h
  have hsound := hs f hm
  cases f <;> simp only [spurious?, Option.some.injEq, reduceCtorEq] at hf
  exact hf ▸ hsound

end Sound

/-! ## The corrected documents -/

section Corrected

variable {libraries : List Library} {u w bs : Fields} {found : List Finding}
  {versions ranges : Fields} {additions spurious : List Text}

/-- A library stands at its version among the corrected development dependencies. -/
theorem get?_corrected_version (hn : (libraries.map Library.name).Nodup)
    (hs : ∀ f ∈ found, f.Sound libraries (Mapping.ofFields bs) (u.names.map .str))
    (hv : found.filterMap version? = Mapping.ofFields versions)
    (hd : Json.isRangesField (u.get? "devDependencies") = true) {l : Library} (hl : l ∈ libraries)
    (hc : checkVersion (Json.orElse (u.get? "devDependencies") (.obj [])) l = .ok none ∨
      ∃ f ∈ found,
        checkVersion (Json.orElse (u.get? "devDependencies") (.obj [])) l = .ok (some f)) :
    (Fields.get? l.name versions.reverse).or ((u.ranges "devDependencies").get? l.name) =
      some (.str l.manifest.version) := by
  have hmem : ∀ e, e ∈ versions ↔ ∃ f ∈ found, f.version? = some (.str e.1, e.2) := by
    intro e
    rw [← Mapping.mem_ofFields, ← hv, List.mem_filterMap]
  -- names differ, so whatever is set for this name is the library's version
  have huniq : ∀ v, (l.name, v) ∈ versions → v = .str l.manifest.version := by
    intro v hm
    obtain ⟨l', hl', he⟩ := exists_library_of_version hs (hv ▸ Mapping.mem_ofFields.mpr hm)
    obtain ⟨hname, rfl⟩ := Prod.mk.inj he
    rw [List.inj_on_of_nodup_map hn hl hl' (Json.str.inj hname)]
  rcases Fields.get?_reverse_of_unique huniq with hg | ⟨hg, hnone⟩
  · rw [hg]; rfl
  · rw [hg, Option.none_or]
    rw [Fields.orElse_ranges hd] at hc
    rcases hc with hc | ⟨f, hf, hc⟩
    · dsimp only [checkVersion] at hc
      split at hc
      · exact absurd (Except.ok.inj hc) (by simp)
      · next found hfound =>
        split at hc
        · next hsame => rw [hfound, Json.eq_of_same_str hsame]
        · exact absurd (Except.ok.inj hc) (by simp)
    · refine absurd ((hmem (l.name, .str l.manifest.version)).mpr ⟨f, hf, ?_⟩) (hnone _)
      rcases eq_of_checkVersion hc with rfl | ⟨_, rfl⟩ <;> rfl

/-- A bundled name stands at its range among the corrected dependencies. -/
theorem get?_corrected_range (hd : bs.keys.Nodup) (ht : ∀ f ∈ bs, f.2.isText = true)
    (hs : ∀ f ∈ found, f.Sound libraries (Mapping.ofFields bs) (u.names.map .str))
    (hr : found.filterMap range? = Mapping.ofFields ranges)
    (hu : Json.isRangesField (u.get? "dependencies") = true) {e : Text × Json} (he : e ∈ bs)
    (hc : checkRange (Json.orElse (u.get? "dependencies") (.obj [])) (.str e.1) e.2 = .ok none ∨
      ∃ f ∈ found,
        checkRange (Json.orElse (u.get? "dependencies") (.obj [])) (.str e.1) e.2 = .ok (some f)) :
    (Fields.get? e.1 ranges.reverse).or ((u.ranges "dependencies").get? e.1) = some e.2 := by
  have hmem : ∀ e, e ∈ ranges ↔ ∃ f ∈ found, f.range? = some (.str e.1, e.2) := by
    intro e
    rw [← Mapping.mem_ofFields, ← hr, List.mem_filterMap]
  have huniq : ∀ v, (e.1, v) ∈ ranges → v = e.2 := by
    intro v hm
    have hv := Mapping.mem_ofFields.mp (mem_bundle_of_range hs (hr ▸ Mapping.mem_ofFields.mpr hm))
    exact congrArg Prod.snd (List.inj_on_of_nodup_map hd hv he rfl)
  rcases Fields.get?_reverse_of_unique huniq with hg | ⟨hg, hnone⟩
  · rw [hg]; rfl
  · rw [hg, Option.none_or]
    rw [Fields.orElse_ranges hu] at hc
    rcases hc with hc | ⟨f, hf, hc⟩
    · obtain ⟨t, htext⟩ := Json.isText_iff.mp (ht e he)
      dsimp only [checkRange] at hc
      rw [Mapping.get?_ofFields, htext] at hc
      split at hc
      · next hsame =>
        have hval := Json.eq_of_same_str hsame
        rw [htext]
        cases hg : Fields.get? e.1 (u.ranges "dependencies") with
        | none => rw [hg] at hval; exact absurd hval (by simp)
        | some v => rw [hg] at hval; exact congrArg some hval
      · exact absurd (Except.ok.inj hc) (by simp)
    · refine absurd ((hmem e).mpr ⟨f, hf, ?_⟩) (hnone _)
      rw [eq_of_checkRange hc]
      rfl

/-- An entry that has been looked for is kept from being hoisted. -/
theorem mem_corrected_nohoist {entry : Text}
    (hc : checkNohoist (w.nohoist.map .str) entry = .ok none ∨
      ∃ f ∈ found, checkNohoist (w.nohoist.map .str) entry = .ok (some f)) :
    entry ∈ (w.addNohoist (found.flatMap entries)).nohoist := by
  rw [Fields.mem_nohoist_addNohoist]
  rcases hc with hc | ⟨f, hf, hc⟩
  · rw [checkNohoist, Json.isIn_map_str, Except.ok.injEq] at hc
    split at hc
    · next h => exact Or.inl (by simpa using h)
    · exact absurd hc (by simp)
  · refine Or.inr (List.mem_flatMap.mpr ⟨f, hf, ?_⟩)
    rw [eq_of_checkNohoist hc]
    exact List.mem_cons_self

/-- A name that has been looked for is bundled before or added. -/
theorem mem_names_or_additions {t : Text} {range : Json}
    (ha : found.filterMap addition? = additions.map .str)
    (hc : checkBundled (u.names.map .str) (.str t) range = .ok none ∨
      ∃ f ∈ found, checkBundled (u.names.map .str) (.str t) range = .ok (some f)) :
    t ∈ u.names ∨ t ∈ additions := by
  rcases hc with hc | ⟨f, hf, hc⟩
  · rw [checkBundled, Json.isIn_map_str, Except.ok.injEq] at hc
    split at hc
    · next h => exact Or.inl (by simpa using h)
    · exact absurd hc (by simp)
  · have hm : Json.str t ∈ found.filterMap addition? :=
      List.mem_filterMap.mpr ⟨f, hf, by rw [eq_of_checkBundled hc]; rfl⟩
    rw [ha, List.mem_map] at hm
    obtain ⟨t', ht', he⟩ := hm
    exact Or.inr (Json.str.inj he ▸ ht')

/-- What is pruned is not in the bundle. -/
theorem not_mem_spurious
    (hs : ∀ f ∈ found, f.Sound libraries (Mapping.ofFields bs) (u.names.map .str))
    (hp : found.filterMap spurious? = spurious.map .str) {e : Text × Json} (he : e ∈ bs) :
    e.1 ∉ spurious := by
  intro hm
  have hnone := (mem_names_of_spurious hs (hp ▸ List.mem_map_of_mem hm)).2
  rw [Mapping.get?_ofFields, Fields.get?_eq_none_iff] at hnone
  exact hnone (List.mem_map_of_mem he)

/-- What is added is in the bundle. -/
theorem isSome_of_mem_additions
    (hs : ∀ f ∈ found, f.Sound libraries (Mapping.ofFields bs) (u.names.map .str))
    (ha : found.filterMap addition? = additions.map .str) {t : Text} (ht : t ∈ additions) :
    (Fields.get? t bs).isSome = true := by
  obtain ⟨range, hm⟩ := exists_mem_bundle_of_addition hs (ha ▸ List.mem_map_of_mem ht)
  rw [Option.isSome_iff_ne_none, Ne, Fields.get?_eq_none_iff, not_not]
  exact List.mem_map_of_mem (Mapping.mem_ofFields.mp hm)

/-- A bundled name that is not pruned is in the bundle. -/
theorem isSome_of_not_mem_spurious (hp : found.filterMap spurious? = spurious.map .str) {t : Text}
    (ht : t ∉ spurious) (hc : checkRequired (Mapping.ofFields bs) (.str t) = .ok none ∨
      ∃ f ∈ found, checkRequired (Mapping.ofFields bs) (.str t) = .ok (some f)) :
    (Fields.get? t bs).isSome = true := by
  rcases hc with hc | ⟨f, hf, hc⟩
  · rw [checkRequired, Mapping.get?_ofFields, Except.ok.injEq] at hc
    split at hc
    · next hsome => exact hsome
    · exact absurd hc (by simp)
  · have hm : Json.str t ∈ found.filterMap spurious? :=
      List.mem_filterMap.mpr ⟨f, hf, by rw [(eq_of_checkRequired hc).1]; rfl⟩
    rw [hp, List.mem_map] at hm
    obtain ⟨t', ht', he⟩ := hm
    exact absurd (Json.str.inj he ▸ ht') ht

/-- All checks of the corrected documents are silent. -/
theorem silent_of_corrected (hn : (libraries.map Library.name).Nodup) (hu : u.IsUber)
    (hw : w.IsWorkspace) (hd : bs.keys.Nodup) (ht : ∀ f ∈ bs, f.2.isText = true)
    (hs : ∀ f ∈ found, f.Sound libraries (Mapping.ofFields bs) (u.names.map .str))
    (hc : ∀ c ∈ checks libraries u (.obj w) (Mapping.ofFields bs), c = .ok none ∨
      ∃ f ∈ found, c = .ok (some f))
    (hv : found.filterMap version? = Mapping.ofFields versions)
    (ha : found.filterMap addition? = additions.map .str)
    (hr : found.filterMap range? = Mapping.ofFields ranges)
    (hp : found.filterMap spurious? = spurious.map .str) :
    ∀ c ∈ checks libraries
        (u.corrected (Fields.update [] versions) additions (Fields.update [] ranges) spurious)
        (.obj (w.addNohoist (found.flatMap entries))) (Mapping.ofFields bs), c = .ok none := by
  have hu' := hu.corrected (Fields.update [] versions) additions (Fields.update [] ranges) spurious
  have hw' := hw.addNohoist (found.flatMap entries)
  rw [forall_mem_checks (nohoist_eq hw) (bundledNames_eq hu)] at hc
  obtain ⟨hversions, -, hbundle, -, hnames⟩ := hc
  rw [Mapping.forall_mem_ofFields] at hbundle
  rw [forall_mem_checks (nohoist_eq hw') (bundledNames_eq hu'), Mapping.forall_mem_ofFields]
  have huber : (Manifest.mk (u.corrected (Fields.update [] versions) additions
      (Fields.update [] ranges) spurious)).name = (Manifest.mk u).name := by
    rw [Manifest.name, Manifest.textOf, Manifest.get?,
      Fields.get?_corrected_of_ne _ _ _ _ _ (by decide) (by decide) (by decide)]
    rfl
  refine ⟨fun l hl => ?_, rfl, fun e he => ⟨?_, ?_, ?_⟩, ?_, fun name hname => ?_⟩
  · rw [Fields.orElse_ranges hu'.dev]
    dsimp only [checkVersion]
    rw [Fields.get?_ranges_corrected_dev, Fields.get?_reverse_update_nil,
      get?_corrected_version hn hs hv hu.dev hl (hversions l hl)]
    exact if_pos (by simp)
  · have hm := mem_corrected_nohoist (hbundle e he).1
    rw [checkNohoist, huber, Json.isIn_map_str, if_pos (by simpa using hm)]
  · have hm := mem_names_or_additions ha (hbundle e he).2.1
    rw [checkBundled, Json.isIn_map_str, if_pos]
    simpa using (Fields.mem_names_corrected _ _ _ _ _).mpr ⟨hm, not_mem_spurious hs hp he⟩
  · rw [Fields.orElse_ranges hu'.dependencies]
    dsimp only [checkRange]
    rw [Mapping.get?_ofFields, Fields.get?_ranges_corrected, if_neg (not_mem_spurious hs hp he),
      Fields.get?_reverse_update_nil,
      get?_corrected_range hd ht hs hr hu.dependencies he (hbundle e he).2.2]
    obtain ⟨t, htext⟩ := Json.isText_iff.mp (ht e he)
    exact if_pos (by simp [htext])
  · exact if_pos (Json.all_isKey_map_str _)
  · obtain ⟨t, hm, rfl⟩ := List.mem_map.mp hname
    obtain ⟨hm, hpruned⟩ := (Fields.mem_names_corrected _ _ _ _ _).mp hm
    rw [checkRequired, Mapping.get?_ofFields, if_pos]
    rcases hm with hm | hm
    · exact isSome_of_not_mem_spurious hp hpruned (hnames (.str t) (List.mem_map_of_mem hm))
    · exact isSome_of_mem_additions hs ha hm

end Corrected

end Finding

/-! ## A second plan -/

namespace Plan

theorem namesText_of_sound {libraries : List Library} {bs : Fields} {ts : List Text} {f : Finding}
    (h : f.Sound libraries (Mapping.ofFields bs) (ts.map .str)) : f.namesText = true := by
  cases f with
  | unbundled name range =>
    obtain ⟨e, -, he⟩ := List.mem_map.mp h
    exact (congrArg (Json.isText ∘ Prod.fst) he).symm
  | wrongRange name range =>
    obtain ⟨e, -, he⟩ := List.mem_map.mp h
    exact (congrArg (Json.isText ∘ Prod.fst) he).symm
  | spurious name =>
    obtain ⟨t, -, rfl⟩ := List.mem_map.mp h.1
    rfl
  | _ => rfl

/-- A bundled name that is pruned stands in the field of bundled names, so that is not nothing. -/
theorem spurious_eq_nil {libraries : List Library} {u bs : Fields} {found : List Finding}
    {spurious : List Text}
    (hs : ∀ f ∈ found, f.Sound libraries (Mapping.ofFields bs) (u.names.map .str))
    (hp : found.filterMap Finding.spurious? = spurious.map .str)
    (hnull : u.get? "bundledDependencies" = some .null) : spurious = [] := by
  have hnames : u.names = [] := by rw [Fields.names, Fields.texts, hnull]
  rw [hnames] at hs
  refine List.eq_nil_iff_forall_not_mem.mpr fun t ht => ?_
  have hm := Finding.mem_names_of_spurious hs (hp ▸ List.mem_map_of_mem ht)
  exact absurd hm.1 List.not_mem_nil

/-- A library at version 1, with one package to bundle. -/
def Sample.library (name bundled range : Text) : Library where
  manifest := ⟨[("name", .str name), ("version", .str "1.0.0"),
    ("bundledDependencies", .arr [.str bundled]), ("dependencies", .obj [(bundled, .str range)])]⟩
  root := ⟨.slash, [name]⟩
  shortName := name

def Sample.libraries : List Library := [library "a" "fast" "^1", library "b" "slow" "^2"]

/-- One wrong version, one missing, a stale bundled name and no dependencies. -/
def Sample.uber : Fields :=
  [("name", .str "u"), ("devDependencies", .obj [("a", .str "0.9.0")]), ("dependencies", .null),
    ("bundledDependencies", .arr [.str "stale", .str "slow"])]

/-- A workspace in list form. -/
def Sample.workspace : Fields := [("workspaces", .arr [.str "packages/*"])]

theorem Sample.hasTextRanges : ∀ l ∈ libraries, l.HasTextRanges := by
  have sample (name bundled range : Text) : (library name bundled range).HasTextRanges := by
    refine ⟨fun m h => ?_, fun m h => ?_, fun names h => ?_⟩ <;> cases h <;> simp [Json.isText]
  intro l hl
  rcases List.mem_pair.mp hl with rfl | rfl <;> exact sample _ _ _

end Plan

end UberPackage
