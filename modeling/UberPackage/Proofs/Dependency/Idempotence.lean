/-
  Corrections that are applied twice.

  Whatever the fields of a manifest hold, a correction that succeeds leaves sorted texts in the
  field that it edits (`ManifestCorrections.merged_eq`, `ManifestCorrections.applyBundled_eq`), and
  texts that have been merged are not changed by merging them again.  So each change settles its
  field (`ManifestCorrections.Settles`), the two changes to the bundled names together, and applying
  corrections once more changes nothing (`Plan.corrections_idempotent`).
-/
import UberPackage.Proofs.Dependency.Merged
import UberPackage.Proofs.Dependency.Settled

namespace UberPackage

theorem Json.map_str_inj {ts us : List Text} (h : ts.map Json.str = us.map Json.str) : ts = us :=
  List.map_injective_iff.mpr (fun _ _ h => Json.str.inj h) h

namespace Mapping

theorem ofFields_inj {fs gs : Fields} (h : ofFields fs = ofFields gs) : fs = gs := by
  have hobject := congrArg toObject h
  rw [toObject_ofFields, toObject_ofFields] at hobject
  exact Json.obj.inj hobject

theorem exists_mem_set (key value : Json) {m : Mapping} {e : Json × Json} (h : e ∈ m) :
    ∃ f ∈ m.set key value, f.1 = e.1 := by
  induction m with
  | nil => exact absurd h List.not_mem_nil
  | cons f m ih =>
    rw [set]
    split
    · rcases List.mem_cons.mp h with rfl | h
      · exact ⟨_, List.mem_cons_self, rfl⟩
      · exact ⟨e, List.mem_cons_of_mem _ h, rfl⟩
    · rcases List.mem_cons.mp h with rfl | h
      · exact ⟨_, List.mem_cons_self, rfl⟩
      · obtain ⟨g, hg, hkey⟩ := ih h
        exact ⟨g, List.mem_cons_of_mem _ hg, hkey⟩

/-- Setting entries drops no key. -/
theorem exists_mem_update (others : Mapping) {m : Mapping} {e : Json × Json} (h : e ∈ m) :
    ∃ f ∈ m.update others, f.1 = e.1 := by
  induction others generalizing m e with
  | nil => exact ⟨e, h, rfl⟩
  | cons o others ih =>
    obtain ⟨f, hf, hkey⟩ := exists_mem_set o.1 o.2 h
    obtain ⟨g, hg, hg'⟩ := ih hf
    exact ⟨g, hg, hg'.trans hkey⟩

end Mapping

namespace ManifestCorrections

/-! ## What corrections over texts leave in a field -/

/-- Entries can be set only in texts; what they are set in is sorted. -/
theorem merged_eq {u : Fields} {field : Text} {entries : Fields} {m : Mapping} (hne : entries ≠ [])
    (h : merged (Mapping.ofFields u) field (Mapping.ofFields entries) = .ok m) :
    ∃ fs : Fields, m = Mapping.ofFields (fs.update entries).sorted := by
  obtain ⟨old, -, h⟩ := except_bind_eq_ok.mp h
  rw [sortedMapping] at h
  split at h
  · next sorted hsort =>
    obtain rfl := Except.ok.inj h
    obtain ⟨e, es, rfl⟩ := List.exists_cons_of_ne_nil hne
    obtain ⟨v, hv⟩ : ∃ v, (old.update (Mapping.ofFields (e :: es))).get? (.str e.1) = some v := by
      have hget : Fields.get? e.1 (e :: es).reverse ≠ none := by
        rw [Ne, Fields.get?_eq_none_iff, not_not]
        simp [Fields.keys]
      obtain ⟨v, hv⟩ := Option.ne_none_iff_exists'.mp hget
      exact ⟨v, by rw [Mapping.get?_update_str, hv]; rfl⟩
    have htext := Mapping.isText_of_sort? hsort hv
    -- the old keys are among those of the outcome, so they are texts as well
    obtain ⟨fs, rfl⟩ :
        ∃ fs : Fields, old = Mapping.ofFields fs := Mapping.exists_ofFields fun f hf => by
      obtain ⟨g, hg, hkey⟩ := Mapping.exists_mem_update (Mapping.ofFields (e :: es)) hf
      exact hkey ▸ htext g hg
    rw [Mapping.update_ofFields, Mapping.sort?_ofFields] at hsort
    exact ⟨fs, (Option.some.inj hsort).symm⟩
  · cases h

/-- The step changes one field of a manifest, and none when it is made again on what it has left
there. -/
structure Settles (field : Text) (step : Mapping → Except Misfit Mapping)
    (u u' : Fields) : Prop where
  frame : ∀ k, k ≠ field → u'.get? k = u.get? k
  again : ∀ u'' : Fields, u''.get? field = u'.get? field →
    step (Mapping.ofFields u'') = .ok (Mapping.ofFields u'')

section OfTexts

variable {u : Fields} {m : Mapping} {dev deps : Fields} {additions pruned : List Text}

/-- Development dependencies are set once. -/
theorem applyDev_settles (h : (ofTexts dev additions deps pruned).applyDev
    (Mapping.ofFields u) = .ok m) :
    ∃ u', m = Mapping.ofFields u' ∧
      Settles "devDependencies" (ofTexts dev additions deps pruned).applyDev u u' := by
  by_cases hdev : dev = []
  · subst hdev
    exact ⟨u, (Except.ok.inj h).symm, fun _ _ => rfl, fun _ _ => rfl⟩
  · rw [applyDev, if_neg (by simpa [ofTexts, Mapping.ofFields] using hdev)] at h
    obtain ⟨entries, hentries, h⟩ := except_bind_eq_ok.mp h
    obtain ⟨fs, rfl⟩ := merged_eq hdev hentries
    rw [Mapping.toObject_ofFields, Mapping.set_ofFields] at h
    refine ⟨_, (Except.ok.inj h).symm, fun k hk => Fields.get?_set_of_ne hk _ _, fun u'' hu'' => ?_⟩
    rw [Fields.get?_set_self] at hu''
    have hranges :
        u''.ranges "devDependencies" = (fs.update dev).sorted := by rw [Fields.ranges, hu'']
    have hagain := Fields.merge_again fs dev []
    simp only [Fields.merge, Fields.eraseAll_nil] at hagain
    rw [applyDev_ofTexts dev additions deps pruned (by rw [hu'']; rfl), Fields.setRanges,
      if_neg hdev, hranges,
      hagain, Fields.set_of_get? hu'']

/-- With nothing to set, dependencies are pruned if they are an object. -/
theorem applyDependencies_of_nil (u : Fields) :
    (ofTexts dev additions [] pruned).applyDependencies (Mapping.ofFields u) =
      .ok (Mapping.ofFields (u.pruneRanges pruned)) := by
  have hprune := prune_ofFields (ofTexts dev additions [] pruned) pruned rfl
  rw [applyDependencies, Fields.pruneRanges, if_pos (by rfl), Mapping.get?_ofFields]
  rcases u.get? "dependencies" with _ | v
  · rfl
  · cases v with
    | obj fs =>
      dsimp only
      by_cases hp : pruned = []
      · rw [if_pos hp, if_pos (by rw [hp]; rfl)]
      · rw [if_neg hp, if_neg (by simpa [ofTexts] using hp), hprune, Mapping.toObject_ofFields,
          Mapping.set_ofFields]
    | _ => rfl

/-- Dependencies that have been pruned have nothing left to prune. -/
theorem pruneRanges_again {u u' : Fields}
    (h : u'.get? "dependencies" = (u.pruneRanges pruned).get? "dependencies") :
    u'.pruneRanges pruned = u' := by
  rw [Fields.pruneRanges]
  split
  · next gs hgs =>
    split
    · rfl
    · next hp =>
      obtain ⟨fs, rfl⟩ : ∃ fs : Fields, gs = fs.eraseAll pruned := by
        rw [h, Fields.pruneRanges] at hgs
        split at hgs
        · rw [if_neg hp, Fields.get?_set_self] at hgs
          exact ⟨_, (Json.obj.inj (Option.some.inj hgs)).symm⟩
        · next hother => exact absurd hgs (hother gs)
      have hagain : (fs.eraseAll pruned).eraseAll pruned = fs.eraseAll pruned := by
        rw [Fields.eraseAll, Fields.eraseAll, List.filter_filter]
        simp only [Bool.and_self]
      rw [hagain, Fields.set_of_get? hgs]
  · rfl

/-- Dependencies are set and pruned once. -/
theorem applyDependencies_settles
    (h : (ofTexts dev additions deps pruned).applyDependencies (Mapping.ofFields u) = .ok m) :
    ∃ u', m = Mapping.ofFields u' ∧
      Settles "dependencies" (ofTexts dev additions deps pruned).applyDependencies u u' := by
  by_cases hdeps : deps = []
  · subst hdeps
    rw [applyDependencies_of_nil] at h
    refine ⟨_, (Except.ok.inj h).symm, fun k hk => Fields.get?_pruneRanges_of_ne hk u pruned,
      fun u'' hu'' => ?_⟩
    rw [applyDependencies_of_nil, pruneRanges_again hu'']
  · rw [applyDependencies, if_neg (by simpa [ofTexts, Mapping.ofFields] using hdeps)] at h
    obtain ⟨entries, hentries, h⟩ := except_bind_eq_ok.mp h
    obtain ⟨fs, rfl⟩ := merged_eq hdeps hentries
    rw [prune_ofFields _ pruned rfl, Mapping.toObject_ofFields, Mapping.set_ofFields] at h
    refine ⟨_, (Except.ok.inj h).symm, fun k hk => Fields.get?_set_of_ne hk _ _, fun u'' hu'' => ?_⟩
    have hfield : u''.get? "dependencies" = some (.obj (fs.merge deps pruned)) :=
      hu''.trans (Fields.get?_set_self _ _ _)
    have hranges : u''.ranges "dependencies" = fs.merge deps pruned := by rw [Fields.ranges, hfield]
    have hagain :
        (((fs.merge deps pruned).update deps).sorted).eraseAll pruned = fs.merge deps pruned :=
      Fields.merge_again fs deps pruned
    rw [applyDependencies_ofTexts dev additions deps pruned (by rw [hfield]; rfl),
      Fields.setRanges, if_neg hdeps,
      hranges, Fields.pruneRanges, Fields.get?_set_self]
    dsimp only
    split
    · next hp =>
      rw [hp, Fields.eraseAll_nil] at hagain
      rw [hp, hagain, Fields.set_of_get? (hp ▸ hfield)]
    · rw [Fields.set_set, hagain, Fields.set_of_get? hfield]

/-! ## Bundled names -/

theorem mem_extend_left {vs : List Json} (additions : List Json) {v : Json} (h : v ∈ vs) :
    v ∈ extend vs additions := by
  induction additions generalizing vs with
  | nil => exact h
  | cons a additions ih =>
    rw [extend, List.foldl_cons, ← extend]
    refine ih ?_
    split
    · exact h
    · exact List.mem_append_left _ h

/-- Values that have been added are texts if what has become of them are texts. -/
theorem isText_of_extend {vs additions : List Json}
    (h : ∀ v ∈ extend vs additions, v.isText = true) : ∀ v ∈ additions, v.isText = true := by
  induction additions generalizing vs with
  | nil => exact fun _ hv => absurd hv List.not_mem_nil
  | cons a additions ih =>
    rw [extend, List.foldl_cons, ← extend] at h
    refine List.forall_mem_cons.mpr ⟨?_, ih h⟩
    split at h
    · next hin =>
      obtain ⟨w, hw, hsame⟩ := List.any_eq_true.mp hin
      obtain ⟨t, rfl⟩ := Json.isText_iff.mp (h w (mem_extend_left additions hw))
      rw [Json.eq_str_of_same hsame]
      rfl
    · exact h a (mem_extend_left additions (List.mem_append_right _ List.mem_cons_self))

/-- Values that are sorted with a text that has been added are all texts. -/
theorem sorted_extend_eq {old additions names : List Json} {t : Text} (ht : Json.str t ∈ additions)
    (h : sorted (extend old additions) = .ok names) :
    ∃ ts us : List Text, old = ts.map .str ∧ additions = us.map .str ∧
      names = (Text.sort (Text.union ts us)).map .str := by
  rw [sorted] at h
  split at h
  · next vs hsort =>
    obtain rfl := Except.ok.inj h
    have hall : ∀ v ∈ extend old additions, v.isText = true := by
      rw [Json.sort?] at hsort
      split at hsort
      · next hordered => exact Json.isText_of_allOrdered hordered (str_mem_extend (Or.inr ht))
      · cases hsort
    obtain ⟨ts, rfl⟩ := Json.exists_map_str old fun v hv => hall v (mem_extend_left _ hv)
    obtain ⟨us, rfl⟩ := Json.exists_map_str additions (isText_of_extend hall)
    rw [extend_map_str, Json.sort?_map_str] at hsort
    exact ⟨ts, us, rfl, rfl, (Option.some.inj hsort).symm⟩
  · cases h

/-- Names can be added only to texts, and are sorted then. -/
theorem applyBundled_eq (hne : additions ≠ [])
    (h : (ofTexts dev additions deps pruned).applyBundled (Mapping.ofFields u) = .ok m) :
    ∃ ts : List Text, m = Mapping.ofFields
      (u.set "bundledDependencies" (.arr ((Text.sort (Text.union ts additions)).map .str))) := by
  rw [applyBundled, if_neg (by simpa [ofTexts] using hne)] at h
  obtain ⟨old, -, h⟩ := except_bind_eq_ok.mp h
  obtain ⟨names, hnames, h⟩ := except_bind_eq_ok.mp h
  obtain ⟨t, additions', rfl⟩ := List.exists_cons_of_ne_nil hne
  obtain ⟨ts, us, -, hus, rfl⟩ := sorted_extend_eq List.mem_cons_self hnames
  obtain rfl : t :: additions' = us := Json.map_str_inj hus
  rw [Mapping.set_ofFields] at h
  exact ⟨ts, (Except.ok.inj h).symm⟩

theorem applyBundled_frame (h : (ofTexts dev additions deps pruned).applyBundled
    (Mapping.ofFields u) = .ok m) :
    ∃ u', m = Mapping.ofFields u' ∧ ∀ k : Text, k ≠ "bundledDependencies" →
    u'.get? k = u.get? k := by
  by_cases hne : additions = []
  · subst hne
    exact ⟨u, (Except.ok.inj h).symm, fun _ _ => rfl⟩
  · obtain ⟨ts, rfl⟩ := applyBundled_eq hne h
    exact ⟨_, rfl, fun k hk => Fields.get?_set_of_ne hk _ _⟩

section Pruned

variable (dev deps : Fields) (additions : List Text)

theorem applyPruned_of_none (hp : pruned ≠ []) (h : u.get? "bundledDependencies" = none) :
    (ofTexts dev additions deps pruned).applyPruned (Mapping.ofFields u) =
      .ok (Mapping.ofFields u) := by
  have hkeys : ¬ (!(ofTexts dev additions deps pruned).pruned.all Json.isKey) = true := by
    simp [ofTexts, Json.isKey]
  rw [applyPruned, if_neg (by simpa [ofTexts] using hp), if_neg hkeys, Mapping.get?_ofFields, h]

theorem applyPruned_of_some (hp : pruned ≠ []) {v : Json}
    (h : u.get? "bundledDependencies" = some v) :
    (ofTexts dev additions deps pruned).applyPruned (Mapping.ofFields u) = do
      let names ← without (pruned.map .str) (← v.elements)
      return Mapping.ofFields (u.set "bundledDependencies" (.arr names)) := by
  have hkeys : ¬ (!(ofTexts dev additions deps pruned).pruned.all Json.isKey) = true := by
    simp [ofTexts, Json.isKey]
  rw [applyPruned, if_neg (by simpa [ofTexts] using hp), if_neg hkeys, Mapping.get?_ofFields, h]
  simp only [Mapping.set_ofFields]
  rfl

end Pruned

/-- Bundled names, whatever they are, are pruned once. -/
theorem applyPruned_settles (h : (ofTexts dev additions deps pruned).applyPruned
    (Mapping.ofFields u) = .ok m) :
    ∃ u', m = Mapping.ofFields u' ∧
      Settles "bundledDependencies" (ofTexts dev additions deps pruned).applyPruned u u' := by
  by_cases hp : pruned = []
  · subst hp
    exact ⟨u, (Except.ok.inj h).symm, fun _ _ => rfl, fun _ _ => rfl⟩
  · cases hv : u.get? "bundledDependencies" with
    | none =>
      rw [applyPruned_of_none dev deps additions hp hv] at h
      exact ⟨u, (Except.ok.inj h).symm, fun _ _ => rfl, fun u'' hu'' =>
        applyPruned_of_none dev deps additions hp (hu''.trans hv)⟩
    | some v =>
      rw [applyPruned_of_some dev deps additions hp hv] at h
      obtain ⟨old, -, h⟩ := except_bind_eq_ok.mp h
      obtain ⟨names, hnames, h⟩ := except_bind_eq_ok.mp h
      rw [without] at hnames
      split at hnames
      · next hkeys =>
        obtain rfl := Except.ok.inj hnames
        refine ⟨_, (Except.ok.inj h).symm, fun k hk => Fields.get?_set_of_ne hk _ _,
          fun u'' hu'' => ?_⟩
        rw [Fields.get?_set_self] at hu''
        have hkept : (old.filter fun v => !v.isIn (pruned.map .str)).all Json.isKey = true := by
          refine List.all_eq_true.mpr fun v hv => ?_
          exact List.all_eq_true.mp hkeys v (List.mem_filter.mp hv).1
        rw [applyPruned_of_some dev deps additions hp hu'']
        dsimp only [Json.elements]
        rw [except_ok_bind, without, if_pos hkept, List.filter_filter]
        simp only [Bool.and_self]
        rw [except_ok_bind, Fields.set_of_get? hu'']
        rfl
      · cases hnames

theorem names_of_texts {ts : List Text}
    (h : u.get? "bundledDependencies" = some (.arr (ts.map .str))) : u.names = ts := by
  rw [Fields.names, Fields.texts, h]
  simp [List.filterMap_map, Function.comp_def, Json.text?]

theorem pruneNames_of_texts {ts : List Text}
    (h : u.get? "bundledDependencies" = some (.arr (ts.map .str))) :
    u.pruneNames pruned =
      u.set "bundledDependencies" (.arr ((ts.filter fun t => !pruned.contains t).map .str)) := by
  rw [Fields.pruneNames]
  split
  · next hp =>
    have hall : ts.filter (fun t => !pruned.contains t) = ts :=
      List.filter_eq_self.mpr fun t _ => by simp [hp]
    rw [hall, Fields.set_of_get? h]
  · rw [h, names_of_texts h]

/-- Names that have been added and pruned: adding them again is undone by pruning them again. -/
theorem names_again {u₁ u₂ u₃ u₄ u : Fields}
    (hadd : (ofTexts dev additions deps pruned).applyBundled (Mapping.ofFields u₁) =
      .ok (Mapping.ofFields u₂))
    (hbetween : u₃.get? "bundledDependencies" = u₂.get? "bundledDependencies")
    (hprune : (ofTexts dev additions deps pruned).applyPruned (Mapping.ofFields u₃) =
      .ok (Mapping.ofFields u₄))
    (hu : u.get? "bundledDependencies" = u₄.get? "bundledDependencies") :
    ∃ u', (ofTexts dev additions deps pruned).applyBundled (Mapping.ofFields u) =
      .ok (Mapping.ofFields u') ∧
      (∀ k : Text, k ≠ "bundledDependencies" → u'.get? k = u.get? k) ∧
      (ofTexts dev additions deps pruned).applyPruned (Mapping.ofFields u') =
        .ok (Mapping.ofFields u) := by
  by_cases hne : additions = []
  · obtain ⟨u₄', heq, hsettles⟩ := applyPruned_settles hprune
    obtain rfl := Mapping.ofFields_inj heq
    exact ⟨u, by rw [hne]; rfl, fun _ _ => rfl, hsettles.again u hu⟩
  · obtain ⟨ts, hts⟩ := applyBundled_eq hne hadd
    obtain rfl := Mapping.ofFields_inj hts
    rw [Fields.get?_set_self] at hbetween
    -- the names that have been left are merged ones
    have hleft :
        u.get? "bundledDependencies" = some (.arr ((Text.merge ts additions pruned).map .str)) := by
      rw [applyPruned_ofTexts dev additions deps pruned
        (by rw [hbetween]; exact Json.all_isText_map_str _)
        fun hnull => by rw [hbetween] at hnull; cases hnull] at hprune
      rw [hu, ← Mapping.ofFields_inj (Except.ok.inj hprune), pruneNames_of_texts hbetween,
        Fields.get?_set_self]
      rfl
    have hagain : ((Text.sort (Text.union (Text.merge ts additions pruned) additions)).filter
        fun t => !pruned.contains t) = Text.merge ts additions pruned :=
          Text.merge_again ts additions pruned
    refine ⟨u.addNames additions, applyBundled_ofTexts dev additions deps pruned
      (by rw [hleft]; exact Json.all_isText_map_str _),
      fun k hk => Fields.get?_addNames_of_ne hk u additions, ?_⟩
    have hadded : (u.addNames additions).get? "bundledDependencies" =
        some (.arr
          ((Text.sort (Text.union (Text.merge ts additions pruned) additions)).map .str)) := by
      rw [Fields.addNames, if_neg hne, Fields.get?_set_self, names_of_texts hleft]
    rw [applyPruned_ofTexts dev additions deps pruned
      (by rw [hadded]; exact Json.all_isText_map_str _)
      fun hnull => by rw [hadded] at hnull; cases hnull]
    rw [pruneNames_of_texts hadded, hagain, Fields.addNames, if_neg hne, Fields.set_set,
      Fields.set_of_get? hleft]

/-! ## The whole manifest -/

/-- Corrections over texts change nothing in a manifest that they have corrected. -/
theorem apply_ofTexts_again {v : Json}
    (h : (ofTexts dev additions deps pruned).apply (.obj u) = .ok v) :
    (ofTexts dev additions deps pruned).apply v = .ok v := by
  obtain ⟨m, hm, h⟩ := except_bind_eq_ok.mp h
  obtain rfl := Except.ok.inj hm
  obtain ⟨m₁, h₁, h⟩ := except_bind_eq_ok.mp h
  obtain ⟨m₂, h₂, h⟩ := except_bind_eq_ok.mp h
  obtain ⟨m₃, h₃, h⟩ := except_bind_eq_ok.mp h
  obtain ⟨m₄, h₄, h⟩ := except_bind_eq_ok.mp h
  obtain ⟨u₁, rfl, hdev⟩ := applyDev_settles h₁
  obtain ⟨u₂, rfl, hadd⟩ := applyBundled_frame h₂
  obtain ⟨u₃, rfl, hdeps⟩ := applyDependencies_settles h₃
  obtain ⟨u₄, rfl, hprune⟩ := applyPruned_settles h₄
  obtain rfl : Json.obj u₄ = v := (Mapping.toObject_ofFields u₄).symm.trans (Except.ok.inj h)
  -- each field is as the step that edits it has left it
  have hdev₄ : u₄.get? "devDependencies" = u₁.get? "devDependencies" := by
    rw [hprune.frame _ (by decide), hdeps.frame _ (by decide), hadd _ (by decide)]
  have hdeps₄ : u₄.get? "dependencies" = u₃.get? "dependencies" := hprune.frame _ (by decide)
  obtain ⟨u', hadds, hframe, hprunes⟩ := names_again h₂ (hdeps.frame _ (by decide)) h₄ rfl
  show (applyDev _ (Mapping.ofFields u₄) >>= _) = _
  rw [hdev.again u₄ hdev₄, except_ok_bind, hadds, except_ok_bind,
    hdeps.again u' ((hframe _ (by decide)).trans hdeps₄), except_ok_bind, hprunes, except_ok_bind]
  exact congrArg Except.ok (Mapping.toObject_ofFields u₄)

end OfTexts

/-- The corrections name packages in texts. -/
structure InTexts (c : ManifestCorrections) : Prop where
  dev : ∀ e ∈ c.devDependencies, e.1.isText = true
  additions : ∀ name ∈ c.bundledAdditions, name.isText = true
  dependencies : ∀ e ∈ c.dependencies, e.1.isText = true
  pruned : ∀ name ∈ c.pruned, name.isText = true

theorem InTexts.exists_ofTexts {c : ManifestCorrections} (h : c.InTexts) :
    ∃ dev additions deps pruned, c = ofTexts dev additions deps pruned := by
  obtain ⟨devs, adds, ranges, spurious⟩ := c
  obtain ⟨dev, rfl⟩ := Mapping.exists_ofFields h.dev
  obtain ⟨additions, rfl⟩ := Json.exists_map_str _ h.additions
  obtain ⟨deps, rfl⟩ := Mapping.exists_ofFields h.dependencies
  obtain ⟨pruned, rfl⟩ := Json.exists_map_str _ h.pruned
  exact ⟨dev, additions, deps, pruned, rfl⟩

end ManifestCorrections

/-! ## Workspaces -/

namespace WorkspaceCorrections

/-- Entries over texts can be added only to texts, and are sorted then. -/
theorem apply_eq_replaced {w : Fields} {entries : List Text} {v : Json} (hne : entries ≠ [])
    (h : (WorkspaceCorrections.mk (entries.map .str)).apply (.obj w) = .ok v) :
    ∃ old : List Text, v =
      .obj (replaced w ((Text.sort (Text.union [] (old ++ entries))).map .str)) := by
  obtain ⟨e, entries', rfl⟩ := List.exists_cons_of_ne_nil hne
  rw [apply] at h
  obtain ⟨m, hm, h⟩ := except_bind_eq_ok.mp h
  obtain rfl := Except.ok.inj hm
  rw [if_neg (by simp [changed]), Mapping.get?_ofFields] at h
  dsimp only at h
  obtain ⟨old, -, h⟩ := except_bind_eq_ok.mp h
  obtain ⟨all, hall, h⟩ := except_bind_eq_ok.mp h
  obtain ⟨sorted, hsorted, h⟩ := except_bind_eq_ok.mp h
  rw [distinct] at hall
  split at hall
  · obtain rfl := Except.ok.inj hall
    obtain ⟨_, us, hnil, hus, rfl⟩ :=
      ManifestCorrections.sorted_extend_eq (List.mem_append_right old List.mem_cons_self) hsorted
    obtain rfl := List.map_eq_nil_iff.mp hnil.symm
    obtain ⟨olds, news, rfl, hold, hnews⟩ := List.map_eq_append_iff.mp hus.symm
    obtain rfl : news = e :: entries' := Json.map_str_inj hnews
    rw [Mapping.set_ofFields, Mapping.toObject_ofFields] at h
    exact ⟨olds, (Except.ok.inj h).symm⟩
  · cases hall

/-- Entries that have been added are not added again. -/
theorem apply_again {w : Fields} {entries : List Text} {v : Json}
    (h : (WorkspaceCorrections.mk (entries.map .str)).apply (.obj w) = .ok v) :
    (WorkspaceCorrections.mk (entries.map .str)).apply v = .ok v := by
  by_cases hne : entries = []
  · subst hne
    obtain rfl : Json.obj w = v := (Mapping.toObject_ofFields w).symm.trans (Except.ok.inj h)
    exact h
  · obtain ⟨old, rfl⟩ := apply_eq_replaced hne h
    generalize hsorted : Text.sort (Text.union [] (old ++ entries)) = sorted
    have hmem : ∀ t, t ∈ sorted ↔ t ∈ old ∨ t ∈ entries := fun t => by
      rw [← hsorted, Text.mem_sort, Text.mem_union, List.mem_append]
      simp
    have hworkspace : (replaced w (sorted.map .str)).IsWorkspace := fun fs hfs => by
      rw [replaced, Fields.get?_set_self] at hfs
      rw [← Json.obj.inj (Option.some.inj hfs), Fields.get?_set_self]
      exact Json.all_isText_map_str sorted
    have hnohoist : (replaced w (sorted.map .str)).nohoist = sorted := by
      rw [Fields.nohoist, replaced, Fields.get?_set_self, settings, Fields.texts_set_self]
    have hagain : Text.sort (Text.union [] (sorted ++ entries)) = sorted := by
      rw [← hsorted]
      refine Text.sort_congr (Text.union_perm [] fun t => ?_)
      rw [hsorted, List.mem_append, List.mem_append, hmem]
      tauto
    refine (apply_ofTexts hworkspace entries).trans (congrArg (fun w => Except.ok (Json.obj w)) ?_)
    rw [Fields.addNohoist, if_neg hne, hnohoist, hagain]
    refine Fields.set_of_get? ?_
    rw [replaced, Fields.get?_set_self, settings, Fields.set_set]

end WorkspaceCorrections

namespace Plan

/-- Corrections that succeed on a document leave one that they do not change, down to the order of
its fields and of its entries; the document may hold any values, and names may be repeated, added
and pruned alike. -/
theorem corrections_idempotent :
    (∀ (c : ManifestCorrections) (uber : Fields) (corrected : Json), c.InTexts →
      c.apply (.obj uber) = .ok corrected → c.apply corrected = .ok corrected) ∧
    ∀ (c : WorkspaceCorrections) (workspace : Fields) (corrected : Json),
      (∀ entry ∈ c.nohoist, entry.isText = true) →
      c.apply (.obj workspace) = .ok corrected → c.apply corrected = .ok corrected := by
  constructor
  · intro c uber corrected htexts h
    obtain ⟨dev, additions, deps, pruned, rfl⟩ := htexts.exists_ofTexts
    exact ManifestCorrections.apply_ofTexts_again h
  · intro c workspace corrected htexts h
    obtain ⟨entries, hentries⟩ := Json.exists_map_str c.nohoist htexts
    obtain rfl : c = ⟨entries.map .str⟩ := by
      cases c
      exact congrArg WorkspaceCorrections.mk hentries
    exact WorkspaceCorrections.apply_again h

namespace Sample

/-- Both names are set as dependencies; one is added twice, the other is added and pruned. -/
def overlapping : ManifestCorrections :=
  .ofTexts [("lib", .str "1.0.0")] ["slow", "fast", "slow"]
    [("slow", .str "^2"), ("fast", .str "^1")] ["fast", "stale"]

def repeated : WorkspaceCorrections := ⟨["u/slow", "u/fast", "u/slow"].map .str⟩

end Sample

theorem corrections_idempotent_sample :
    ∃ uber' workspace', Sample.overlapping.InTexts ∧
      Sample.overlapping.apply (.obj Sample.uber) = .ok uber' ∧
      Sample.overlapping.apply uber' = .ok uber' ∧
      Json.obj Sample.uber ≠ uber' ∧ (∀ entry ∈ Sample.repeated.nohoist, entry.isText = true) ∧
      Sample.repeated.apply (.obj Sample.workspace) = .ok workspace' ∧
      Sample.repeated.apply workspace' = .ok workspace' ∧
      Json.obj Sample.workspace ≠ workspace' := by
  have htexts : Sample.overlapping.InTexts := by constructor <;> decide
  have hentries : ∀ entry ∈ Sample.repeated.nohoist, entry.isText = true := by decide
  obtain ⟨uber', hu, hune⟩ : ∃ uber', Sample.overlapping.apply (.obj Sample.uber) = .ok uber' ∧
      Json.obj Sample.uber ≠ uber' := by
    refine ⟨_, ManifestCorrections.apply_ofTexts _ _ _ _ ⟨rfl, rfl, rfl⟩
      (fun h => by cases h), fun h => ?_⟩
    cases congrArg (Fields.get? "dependencies") (Json.obj.inj h)
  obtain ⟨workspace', hw, hwne⟩ :
      ∃ workspace', Sample.repeated.apply (.obj Sample.workspace) = .ok workspace' ∧
      Json.obj Sample.workspace ≠ workspace' := by
    refine ⟨_, rfl, fun h => ?_⟩
    cases Json.obj.inj h
  exact ⟨uber', workspace', htexts, hu, corrections_idempotent.1 _ _ _ htexts hu,
    hune, hentries, hw,
    corrections_idempotent.2 _ _ _ hentries hw, hwne⟩

end Plan

end UberPackage
