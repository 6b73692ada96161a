/-
  What corrections leave in a document.

  Corrections are kept in a document (`ManifestCorrections.KeptIn`, `WorkspaceCorrections.KeptIn`)
  that has all that they set or add and nothing that they prune.  Whatever the fields of a manifest
  hold, each change edits one field of it and leaves an object that can be written and read again;
  so the corrections of a plan are kept in the corrected documents
  (`ManifestCorrections.kept_of_apply`, `Plan.wellFormed_of_make`).
-/
import UberPackage.Proofs.Dependency.Conflict
import UberPackage.Proofs.Dependency.Settled

namespace UberPackage

/-! ## Edits of a manifest -/

namespace Fields

/-- Only one field has changed, and the fields can be written and read again. -/
structure Edits (field : Text) (u u' : Fields) : Prop where
  readable : Json.Readable (.obj u')
  others : ∀ k, k ≠ field → u'.get? k = u.get? k

variable {u : Fields} {field : Text} {v : Json}

theorem edits_refl (h : Json.Readable (.obj u)) : Edits field u u := ⟨h, fun _ _ => rfl⟩

theorem edits_set (h : Json.Readable (.obj u)) (hv : v.Readable) : Edits field u (u.set field v) :=
  ⟨h.set field hv, fun _ hk => get?_set_of_ne hk v u⟩

/-- What a field holds can be written and read again. -/
theorem readable_of_get? (h : Json.Readable (.obj u)) (v : Json)
    (hv : (Mapping.ofFields u).get? (.str field) = some v) : v.Readable := by
  rw [Mapping.get?_ofFields] at hv
  exact h.get? hv

end Fields

namespace ManifestCorrections

/-- A field with entries set in it is an object that has them, whatever it has been. -/
theorem merged_ok {u : Fields} {field : Text} {entries m : Mapping} (hu : Json.Readable (.obj u))
    (he : entries.IsObject) (hne : entries.isEmpty = false)
    (h : merged (Mapping.ofFields u) field entries = .ok m) :
    ∃ fs, m = Mapping.ofFields fs ∧ Json.Readable (.obj fs) ∧
    ∀ e ∈ entries, m.get? e.1 = some e.2 := by
  obtain ⟨es, rfl, hes⟩ := he
  obtain ⟨old, hold, h⟩ := except_bind_eq_ok.mp h
  have hreadable : (old.update (Mapping.ofFields es)).IsReadable := by
    refine (Mapping.isReadable_ofValue ?_ hold).update (Mapping.isReadable_ofFields hes).values
    exact Json.Readable.orElse (Fields.readable_of_get? hu) Json.readable_empty
  have hget : ∀ e ∈ es, (old.update (Mapping.ofFields es)).get? (.str e.1) = some e.2 := by
    intro e hm
    cases hes with
    | obj hk hv =>
      rw [Mapping.get?_update_str, Fields.get?_reverse_of_nodup hk,
        Fields.get?_of_mem_of_nodup hk hm]
      rfl
  rw [sortedMapping] at h
  split at h
  · next sorted hsort =>
    obtain rfl := Except.ok.inj h
    -- a key among the others is a text, so all of them are
    have htext : ∀ e ∈ old.update (Mapping.ofFields es), e.1.isText = true := by
      obtain ⟨e, es', rfl⟩ := List.exists_cons_of_ne_nil (l := es) (by rintro rfl; cases hne)
      exact Mapping.isText_of_sort? hsort (hget e List.mem_cons_self)
    obtain ⟨fs, hfs, hfsreadable⟩ := hreadable.isObject htext
    rw [hfs, Mapping.sort?_ofFields] at hsort
    obtain rfl := Option.some.inj hsort
    refine ⟨fs.sorted, rfl, Fields.readable_sorted hfsreadable, fun e hm => ?_⟩
    obtain ⟨f, hf, rfl⟩ := List.mem_map.mp hm
    rw [Mapping.get?_ofFields, Fields.get?_sorted, ← Mapping.get?_ofFields, ← hfs, hget f hf]
  · cases h

/-- Pruning takes the fields that have one of the names, which are texts. -/
theorem prune_eq (c : ManifestCorrections) (fs : Fields) :
    c.prune (Mapping.ofFields fs) = Mapping.ofFields
      (fs.eraseAll (c.pruned.filterMap Json.text?)) := by
  rw [prune]
  generalize c.pruned = pruned
  induction pruned generalizing fs with
  | nil => rw [List.foldl_nil, List.filterMap_nil, Fields.eraseAll_nil]
  | cons name pruned ih =>
    rw [List.foldl_cons]
    cases ht : name.isText with
    | true =>
      obtain ⟨t, rfl⟩ := Json.isText_iff.mp ht
      rw [Mapping.erase_ofFields, ih, List.filterMap_cons_some
        (by rfl : Json.text? (.str t) = some t), Fields.erase,
        Fields.eraseAll, Fields.eraseAll, List.filter_filter]
      refine congrArg Mapping.ofFields (List.filter_congr fun f _ => ?_)
      by_cases hf : f.1 = t <;> simp [hf]
    | false =>
      have hnone : Json.text? name = none := by
        cases name with
        | str t => cases ht
        | _ => rfl
      have herase : (Mapping.ofFields fs).erase name = Mapping.ofFields fs := by
        refine List.filter_eq_self.mpr fun e he => ?_
        obtain ⟨f, -, rfl⟩ := List.mem_map.mp he
        rw [Bool.not_eq_true', Bool.eq_false_iff]
        intro hsame
        rw [Json.eq_str_of_same hsame] at ht
        cases ht
      rw [herase, ih, List.filterMap_cons_none hnone]

theorem mem_texts {vs : List Json} {t : Text} : t ∈ vs.filterMap Json.text? ↔ Json.str t ∈ vs := by
  rw [List.mem_filterMap]
  constructor
  · rintro ⟨v, hv, ht⟩
    cases v with
    | str s => exact Option.some.inj ht ▸ hv
    | _ => cases ht
  · exact fun h => ⟨_, h, rfl⟩

/-- The corrections set and add texts, and prune nothing of that. -/
structure WellFormed (c : ManifestCorrections) : Prop where
  dev : c.devDependencies.IsObject
  additions : ∀ name ∈ c.bundledAdditions, name.isText = true
  dependencies : c.dependencies.IsObject
  bundled_apart : ∀ name ∈ c.bundledAdditions, name ∉ c.pruned
  dependencies_apart : ∀ e ∈ c.dependencies, e.1 ∉ c.pruned

variable {c : ManifestCorrections} {u : Fields} {m : Mapping}

theorem applyDev_ok (hc : c.WellFormed) (hu : Json.Readable (.obj u))
    (h : c.applyDev (Mapping.ofFields u) = .ok m) :
    ∃ u', m = Mapping.ofFields u' ∧ Fields.Edits "devDependencies" u u' ∧ ∀ e ∈ c.devDependencies,
      ∃ fs, u'.get? "devDependencies" = some (.obj fs) ∧
      (Mapping.ofFields fs).get? e.1 = some e.2 := by
  rw [applyDev] at h
  split at h
  · next hempty =>
    obtain rfl := Except.ok.inj h
    rw [List.isEmpty_iff.mp hempty]
    exact ⟨u, rfl, Fields.edits_refl hu, fun e he => absurd he List.not_mem_nil⟩
  · next hempty =>
    obtain ⟨dev, hdev, h⟩ := except_bind_eq_ok.mp h
    obtain ⟨fs, rfl, hfs, hget⟩ := merged_ok hu hc.dev (Bool.eq_false_iff.mpr hempty) hdev
    refine ⟨u.set "devDependencies" (.obj fs), ?_, Fields.edits_set hu hfs, fun e he =>
      ⟨fs, Fields.get?_set_self _ _ _, hget e he⟩⟩
    rw [← Except.ok.inj h, Mapping.toObject_ofFields, Mapping.set_ofFields]

theorem applyBundled_ok (hc : c.WellFormed) (hu : Json.Readable (.obj u))
    (h : c.applyBundled (Mapping.ofFields u) = .ok m) :
    ∃ u', m = Mapping.ofFields u' ∧ Fields.Edits "bundledDependencies" u u' ∧
      ∀ name ∈ c.bundledAdditions,
      ∃ vs, u'.get? "bundledDependencies" = some (.arr vs) ∧ name ∈ vs := by
  rw [applyBundled] at h
  split at h
  · next hempty =>
    obtain rfl := Except.ok.inj h
    rw [List.isEmpty_iff.mp hempty]
    exact ⟨u, rfl, Fields.edits_refl hu, fun e he => absurd he List.not_mem_nil⟩
  · obtain ⟨old, hold, h⟩ := except_bind_eq_ok.mp h
    obtain ⟨names, hnames, h⟩ := except_bind_eq_ok.mp h
    rw [sorted] at hnames
    split at hnames
    · next vs hsort =>
      obtain rfl := Except.ok.inj hnames
      have hperm := Json.sort?_perm hsort
      have hreadable : Json.Readable (.arr vs) := .arr fun v hv => by
        rcases mem_extend (hperm.mem_iff.mp hv) with hv | hv
        · exact (Json.Readable.orElse (Fields.readable_of_get? hu)
            Json.readable_none).elements hold v hv
        · obtain ⟨t, rfl⟩ := Json.isText_iff.mp (hc.additions v hv)
          exact .str t
      refine ⟨u.set "bundledDependencies" (.arr vs), ?_, Fields.edits_set hu hreadable,
        fun name hname => ⟨vs, Fields.get?_set_self _ _ _, ?_⟩⟩
      · rw [← Except.ok.inj h, Mapping.set_ofFields]
      · obtain ⟨t, rfl⟩ := Json.isText_iff.mp (hc.additions name hname)
        exact hperm.mem_iff.mpr (str_mem_extend (Or.inr hname))
    · cases hnames

/-- What the dependencies are after pruning. -/
theorem get?_prune (c : ManifestCorrections) (fs : Fields) :
    (∀ name ∈ c.pruned,
      (Mapping.ofFields (fs.eraseAll (c.pruned.filterMap Json.text?))).get? name = none) ∧
    ∀ t, Json.str t ∉ c.pruned →
      (Mapping.ofFields (fs.eraseAll (c.pruned.filterMap Json.text?))).get? (.str t) =
        fs.get? t := by
  refine ⟨fun name hname => ?_, fun t ht => ?_⟩
  · cases hn : name.isText with
    | true =>
      obtain ⟨t, rfl⟩ := Json.isText_iff.mp hn
      rw [Mapping.get?_ofFields, Fields.get?_eraseAll, if_pos (mem_texts.mpr hname)]
    | false => exact Mapping.get?_ofFields_eq_none hn _
  · rw [Mapping.get?_ofFields, Fields.get?_eraseAll, if_neg fun hmem => ht (mem_texts.mp hmem)]

theorem applyDependencies_ok (hc : c.WellFormed) (hu : Json.Readable (.obj u))
    (h : c.applyDependencies (Mapping.ofFields u) = .ok m) :
    ∃ u', m = Mapping.ofFields u' ∧ Fields.Edits "dependencies" u u' ∧
      (∀ e ∈ c.dependencies,
        ∃ fs, u'.get? "dependencies" = some (.obj fs) ∧ (Mapping.ofFields fs).get? e.1 = some e.2) ∧
      ∀ name ∈ c.pruned, ∀ fs, u'.get? "dependencies" = some (.obj fs) →
      (Mapping.ofFields fs).get? name = none := by
  have hsub : ∀ fs : Fields, (fs.eraseAll (c.pruned.filterMap Json.text?)).Sublist fs := fun fs =>
    List.filter_sublist
  rw [applyDependencies] at h
  split at h
  · next hempty =>
    rw [List.isEmpty_iff.mp hempty, Mapping.get?_ofFields] at *
    have hnone : ∀ e ∈ ([] : Mapping), ∃ fs, u.get? "dependencies" = some (.obj fs) ∧
      (Mapping.ofFields fs).get? e.1 = some e.2 := fun e he => absurd he List.not_mem_nil
    split at h
    · next fs hfs =>
      split at h
      · next hpruned =>
        obtain rfl := Except.ok.inj h
        refine ⟨u, rfl, Fields.edits_refl hu, hnone, fun name hname => ?_⟩
        rw [List.isEmpty_iff.mp hpruned] at hname
        cases hname
      · rw [prune_eq, Mapping.toObject_ofFields, Mapping.set_ofFields] at h
        refine ⟨_, (Except.ok.inj h).symm,
          Fields.edits_set hu (Fields.readable_of_sublist (hsub fs) (hu.get? hfs)),
          fun e he => absurd he List.not_mem_nil, fun name hname gs hgs => ?_⟩
        rw [Fields.get?_set_self] at hgs
        obtain rfl := Json.obj.inj (Option.some.inj hgs)
        exact (get?_prune c fs).1 name hname
    · next hother =>
      obtain rfl := Except.ok.inj h
      exact ⟨u, rfl, Fields.edits_refl hu, hnone, fun name _ fs hfs => absurd hfs (hother fs)⟩
  · next hempty =>
    obtain ⟨deps, hdeps, h⟩ := except_bind_eq_ok.mp h
    obtain ⟨fs, rfl, hfs, hget⟩ := merged_ok hu hc.dependencies (Bool.eq_false_iff.mpr hempty) hdeps
    rw [prune_eq, Mapping.toObject_ofFields, Mapping.set_ofFields] at h
    refine ⟨_, (Except.ok.inj h).symm, Fields.edits_set hu
      (Fields.readable_of_sublist (hsub fs) hfs),
      fun e he => ⟨_, Fields.get?_set_self _ _ _, ?_⟩, fun name hname gs hgs => ?_⟩
    · obtain ⟨es, hes, -⟩ := hc.dependencies
      have hapart := hc.dependencies_apart e he
      have hgete := hget e he
      obtain ⟨f, hf, rfl⟩ := List.mem_map.mp (hes ▸ he)
      rw [(get?_prune c fs).2 _ hapart, ← Mapping.get?_ofFields, hgete]
    · rw [Fields.get?_set_self] at hgs
      obtain rfl := Json.obj.inj (Option.some.inj hgs)
      exact (get?_prune c fs).1 name hname

theorem applyPruned_ok (hu : Json.Readable (.obj u))
    (h : c.applyPruned (Mapping.ofFields u) = .ok m) :
    ∃ u', m = Mapping.ofFields u' ∧ Fields.Edits "bundledDependencies" u u' ∧
      (∀ vs t, u.get? "bundledDependencies" = some (.arr vs) → Json.str t ∈ vs →
        Json.str t ∉ c.pruned →
        ∃ ws, u'.get? "bundledDependencies" = some (.arr ws) ∧ Json.str t ∈ ws) ∧
      ∀ name ∈ c.pruned, ∀ v names, u'.get? "bundledDependencies" = some v →
        v.elements = .ok names →
        ∀ other ∈ names, name.same other = false := by
  rw [applyPruned] at h
  split at h
  · next hempty =>
    obtain rfl := Except.ok.inj h
    rw [List.isEmpty_iff.mp hempty]
    exact ⟨u, rfl, Fields.edits_refl hu, fun vs t hvs ht _ => ⟨vs, hvs, ht⟩,
      fun name hname => absurd hname List.not_mem_nil⟩
  · split at h
    · cases h
    · rw [Mapping.get?_ofFields] at h
      split at h
      · next hnone =>
        obtain rfl := Except.ok.inj h
        refine ⟨u, rfl, Fields.edits_refl hu, fun vs t hvs => ?_, fun name _ v names hv => ?_⟩
        · rw [hnone] at hvs
          cases hvs
        · rw [hnone] at hv
          cases hv
      · next v hv =>
        obtain ⟨old, hold, h⟩ := except_bind_eq_ok.mp h
        obtain ⟨names, hnames, h⟩ := except_bind_eq_ok.mp h
        rw [without] at hnames
        split at hnames
        · obtain rfl := Except.ok.inj hnames
          have hreadable : Json.Readable (.arr (old.filter fun v => !v.isIn c.pruned)) :=
            .arr fun w hw => (hu.get? hv).elements hold w (List.mem_filter.mp hw).1
          refine ⟨u.set "bundledDependencies" (.arr (old.filter fun v => !v.isIn c.pruned)), ?_,
            Fields.edits_set hu hreadable,
            fun vs t hvs ht hapart => ⟨_, Fields.get?_set_self _ _ _, ?_⟩,
            fun name hname w names hw hnames other hother => ?_⟩
          · rw [← Except.ok.inj h, Mapping.set_ofFields]
          · rw [hv] at hvs
            obtain rfl := Option.some.inj hvs
            obtain rfl := Except.ok.inj hold
            refine List.mem_filter.mpr ⟨ht, ?_⟩
            rw [Bool.not_eq_true', Bool.eq_false_iff]
            exact fun hin => hapart (Json.isIn_str_iff.mp hin)
          · rw [Fields.get?_set_self] at hw
            obtain rfl := Option.some.inj hw
            obtain rfl := Except.ok.inj hnames
            have hkept := (List.mem_filter.mp hother).2
            rw [Bool.not_eq_true', Json.isIn, List.any_eq_false] at hkept
            exact Bool.eq_false_iff.mpr (hkept name hname)
        · cases hnames

/-! ## Corrections that are kept -/

/-- The manifest has what the corrections set and add, and not what they prune. -/
structure KeptIn (c : ManifestCorrections) (v : Json) : Prop where
  dev : ∀ e ∈ c.devDependencies, ∃ fs, v.field? "devDependencies" = some (.obj fs) ∧
    (Mapping.ofFields fs).get? e.1 = some e.2
  bundled :
    ∀ name ∈ c.bundledAdditions, ∃ vs, v.field? "bundledDependencies" = some (.arr vs) ∧ name ∈ vs
  dependencies : ∀ e ∈ c.dependencies, ∃ fs, v.field? "dependencies" = some (.obj fs) ∧
    (Mapping.ofFields fs).get? e.1 = some e.2
  prunedNames : ∀ name ∈ c.pruned, ∀ w names, v.field? "bundledDependencies" = some w →
    w.elements = .ok names →
    ∀ other ∈ names, name.same other = false
  prunedRanges : ∀ name ∈ c.pruned, ∀ fs, v.field? "dependencies" = some (.obj fs) →
    (Mapping.ofFields fs).get? name = none

/-- Where there is nothing to correct, nothing is lost. -/
theorem keptIn_of_unchanged (h : c.changed = false) (v : Json) : c.KeptIn v := by
  rw [changed, Bool.not_eq_false', Bool.and_eq_true, Bool.and_eq_true, Bool.and_eq_true] at h
  obtain ⟨⟨⟨hdev, hbundled⟩, hranges⟩, hpruned⟩ := h
  rw [List.isEmpty_iff] at hdev hbundled hranges hpruned
  constructor
  · rw [hdev]
    exact fun _ he => absurd he List.not_mem_nil
  · rw [hbundled]
    exact fun _ he => absurd he List.not_mem_nil
  · rw [hranges]
    exact fun _ he => absurd he List.not_mem_nil
  · rw [hpruned]
    exact fun _ he => absurd he List.not_mem_nil
  · rw [hpruned]
    exact fun _ he => absurd he List.not_mem_nil

/-- A manifest that has been corrected keeps the corrections. -/
theorem kept_of_apply (hc : c.WellFormed) {v v' : Json} (hv : v.Readable) (hu : v = .obj u)
    (h : c.apply v = .ok v') : v'.Readable ∧ c.KeptIn v' := by
  subst hu
  rw [apply] at h
  obtain ⟨m₀, hm₀, h⟩ := except_bind_eq_ok.mp h
  obtain rfl := Except.ok.inj hm₀
  obtain ⟨m₁, hm₁, h⟩ := except_bind_eq_ok.mp h
  obtain ⟨u₁, rfl, hedits₁, hdev⟩ := applyDev_ok hc hv hm₁
  obtain ⟨m₂, hm₂, h⟩ := except_bind_eq_ok.mp h
  obtain ⟨u₂, rfl, hedits₂, hadditions⟩ := applyBundled_ok hc hedits₁.readable hm₂
  obtain ⟨m₃, hm₃, h⟩ := except_bind_eq_ok.mp h
  obtain ⟨u₃, rfl, hedits₃, hranges, hpruned⟩ := applyDependencies_ok hc hedits₂.readable hm₃
  obtain ⟨m₄, hm₄, h⟩ := except_bind_eq_ok.mp h
  obtain ⟨u₄, rfl, hedits₄, hkeeps, hnames⟩ := applyPruned_ok hedits₃.readable hm₄
  obtain rfl := Except.ok.inj h
  rw [Mapping.toObject_ofFields]
  refine ⟨hedits₄.readable, fun e he => ?_, fun name hname => ?_, fun e he => ?_, hnames,
    fun name hname fs hfs => ?_⟩
  · obtain ⟨fs, hfs, hget⟩ := hdev e he
    refine ⟨fs, ?_, hget⟩
    rw [Json.field?, hedits₄.others _ (by decide), hedits₃.others _ (by decide),
      hedits₂.others _ (by decide), hfs]
  · obtain ⟨vs, hvs, hmem⟩ := hadditions name hname
    obtain ⟨t, rfl⟩ := Json.isText_iff.mp (hc.additions name hname)
    exact hkeeps vs t ((hedits₃.others _ (by decide)).trans hvs) hmem (hc.bundled_apart _ hname)
  · obtain ⟨fs, hfs, hget⟩ := hranges e he
    exact ⟨fs, (hedits₄.others _ (by decide)).trans hfs, hget⟩
  · exact hpruned name hname fs ((hedits₄.others _ (by decide)).symm.trans hfs)

end ManifestCorrections

namespace WorkspaceCorrections

/-- The workspace has the entries of the corrections among those that are not hoisted. -/
def KeptIn (c : WorkspaceCorrections) (v : Json) : Prop :=
  ∀ entry ∈ c.nohoist, ∃ (fs : Fields) (vs : List Json), v.field? "workspaces" = some (.obj fs) ∧
    fs.get? "nohoist" = some (.arr vs) ∧ entry ∈ vs

/-- A workspace that has been corrected keeps the corrections. -/
theorem kept_of_apply {c : WorkspaceCorrections} (hc : ∀ entry ∈ c.nohoist, entry.isText = true)
    {w : Fields} {v : Json} (hw : Json.Readable (.obj w)) (hchanged : c.changed = true)
    (h : c.apply (.obj w) = .ok v) : v.Readable ∧ c.KeptIn v := by
  obtain ⟨old, entries, hcorrects, rfl⟩ := corrects_of_apply hchanged h
  refine ⟨hcorrects.readable hw fun entry he => ?_, fun entry he => ?_⟩
  · obtain ⟨t, rfl⟩ := Json.isText_iff.mp (hc entry he)
    exact .str t
  · obtain ⟨t, rfl⟩ := Json.isText_iff.mp (hc entry he)
    exact ⟨_, entries, Fields.get?_set_self _ _ _, Fields.get?_set_self _ _ _,
      hcorrects.str_mem (Or.inr he)⟩

end WorkspaceCorrections

/-! ## Corrections of a plan -/

namespace Library

/-- The manifest of the library can be written and read again, and it bundles texts. -/
structure BundlesTexts (l : Library) : Prop where
  readable : Json.Readable (.obj l.manifest.fields)
  bundled : ∀ names, l.manifest.bundled = .ok names → ∀ name ∈ names, name.isText = true

end Library

namespace Manifest

theorem isReadable_ranges {m : Manifest} (hm : Json.Readable (.obj m.fields)) {key : Text}
    {ranges : Mapping} (h : m.ranges key = .ok ranges) : ranges.IsReadable :=
  Mapping.isReadable_ofValue (Json.Readable.orElse (fun _ hv => hm.get? hv) Json.readable_empty) h

end Manifest

namespace Bundle

theorem requirement_readable {dev runtime : Mapping} (hd : ∀ e ∈ dev, e.2.Readable)
    (hr : ∀ e ∈ runtime, e.2.Readable) (name : Json) : (requirement dev runtime name).Readable :=
  requirement_of_forall (P := Json.Readable) (.str _) hd hr name

/-- The bundle of libraries that bundle texts is that of an object. -/
theorem isObject_collect {libraries : List Library}
    (hl : ∀ l ∈ libraries, l.BundlesTexts) {b : Bundle} (h : collect libraries = .ok b) :
    Mapping.IsObject b := by
  refine foldlM_ok_inv (P := fun b : Bundle => Mapping.IsObject b) (fun l hm b b' hb h => ?_)
    ⟨[], rfl, Json.readable_empty⟩ h
  rw [addLibrary] at h
  simp only [except_bind_eq_ok] at h
  obtain ⟨dev, hd, runtime, hr, names, hn, h⟩ := h
  have hdev := Manifest.isReadable_ranges (hl l hm).readable (fitting_ok hd)
  have hruntime := Manifest.isReadable_ranges (hl l hm).readable (fitting_ok hr)
  refine foldlM_ok_inv (P := fun b : Bundle => Mapping.IsObject b)
    (fun name hname b b' hb h => ?_) hb h
  obtain ⟨t, rfl⟩ := Json.isText_iff.mp ((hl l hm).bundled names (fitting_ok hn) name hname)
  obtain ⟨fs, rfl, hfs⟩ := hb
  refine ⟨fs.set t (requirement dev runtime (.str t)), ?_,
    hfs.set t (requirement_readable hdev.values hruntime.values _)⟩
  rw [add_ok h, Mapping.set_ofFields]

end Bundle

namespace Plan

/-- Corrections that findings call for one after the other are those of an object. -/
theorem isObject_update {entries : Mapping} (ht : ∀ e ∈ entries, e.1.isText = true)
    (hv : ∀ e ∈ entries, e.2.Readable) :
    Mapping.IsObject (Mapping.update [] entries) := by
  refine (Mapping.IsReadable.update ⟨.nil, fun e he => absurd he List.not_mem_nil⟩ hv).isObject
    fun e he => ?_
  obtain ⟨f, hf, -⟩ | ⟨f, hf, hfe⟩ := Mapping.exists_of_mem_update he
  · cases hf
  · exact hfe ▸ ht f hf

/-- The corrections of a plan for libraries that bundle texts are well formed. -/
theorem wellFormed_of_make {libraries : List Library} {uber workspace : Json} {p : Plan}
    (hl : ∀ l ∈ libraries, l.BundlesTexts) (h : (make libraries uber workspace).2 = .ok p) :
    p.manifest.WellFormed ∧ ∀ entry ∈ p.workspace.nohoist, entry.isText = true := by
  obtain ⟨u, w, entries, names, rfl, rfl, hentries, hnames⟩ := objects_of_make h
  obtain ⟨bundle, hbundle, hfault, rfl⟩ := make_eq_ok.mp h
  obtain ⟨fs, rfl, hfs⟩ := Bundle.isObject_collect hl hbundle
  have hsound := fun f => Finding.sound_of_mem (f := f) hentries hnames hfault
  revert hsound
  generalize (Survey.run (Finding.checks libraries u (.obj w) (Mapping.ofFields fs))).found = found
  intro hsound
  have hmem : ∀ {name range : Json}, (name, range) ∈ Mapping.ofFields fs →
      name.isText = true ∧ range.Readable ∧
      (Mapping.get? name (Mapping.ofFields fs)).isSome = true := by
    intro name range hm
    obtain ⟨f, hf, he⟩ := List.mem_map.mp hm
    obtain ⟨rfl, rfl⟩ := Prod.mk.inj he
    cases hfs with
    | obj hk hv =>
      refine ⟨rfl, hv f hf, ?_⟩
      rw [Mapping.get?_ofFields, Fields.get?_of_mem_of_nodup hk hf]
      rfl
  have hranges : ∀ e ∈ found.filterMap Finding.range?, e ∈ Mapping.ofFields fs :=
    fun e he => Finding.mem_bundle_of_range hsound he
  -- what the bundle has is not pruned
  have hapart : ∀ {name range : Json}, (name, range) ∈ Mapping.ofFields fs →
      name ∉ found.filterMap Finding.spurious? := by
    intro name range hm hname
    have hsome := (hmem hm).2.2
    rw [show Mapping.get? name _ =
      none from (Finding.mem_names_of_spurious hsound hname).2] at hsome
    cases hsome
  have hversions : Mapping.IsObject (Mapping.update [] (found.filterMap Finding.version?)) := by
    refine isObject_update (fun e he => ?_) fun e he => ?_ <;>
      obtain ⟨l, -, rfl⟩ := Finding.exists_library_of_version hsound he
    · rfl
    · exact .str _
  have hdependencies : Mapping.IsObject (Mapping.update [] (found.filterMap Finding.range?)) :=
    isObject_update (fun e he => (hmem (hranges e he)).1) fun e he => (hmem (hranges e he)).2.1
  refine ⟨⟨hversions, fun name hname => ?_, hdependencies, fun name hname => ?_, fun e he => ?_⟩,
    fun entry he => ?_⟩
  · obtain ⟨range, hm⟩ := Finding.exists_mem_bundle_of_addition hsound hname
    exact (hmem hm).1
  · obtain ⟨range, hm⟩ := Finding.exists_mem_bundle_of_addition hsound hname
    exact hapart hm
  · -- a range that is set comes from a finding
    obtain ⟨f, hf, -⟩ | ⟨f, hf, hfe⟩ := Mapping.exists_of_mem_update he
    · cases hf
    · exact hfe ▸ hapart (hranges f hf)
  · obtain ⟨t, -, rfl⟩ := List.mem_map.mp he
    rfl

end Plan

end UberPackage
