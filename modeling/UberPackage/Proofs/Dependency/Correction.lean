/-
  What corrections make of a manifest.

  Corrections over texts (`ManifestCorrections.ofTexts`) turn a well-typed manifest into the
  manifest `Fields.corrected`, which is made of four small changes to its fields
  (`ManifestCorrections.apply_ofTexts`).  The manifest is well typed afterwards, and the lemmas on
  `corrected` say what can be looked up in it:

  * `get?_ranges_corrected_dev`, `get?_ranges_corrected`: the ranges of both maps of dependencies;
  * `mem_names_corrected`: the bundled names;
  * `get?_corrected_of_ne`: nothing else changes.

  In the same way `WorkspaceCorrections.apply_ofTexts` gives the workspace `Fields.addNohoist`.
-/
import UberPackage.Dependency.Correction
import UberPackage.Proofs.Except
import UberPackage.Proofs.Json.TextKeys

namespace UberPackage

/-! ## Well-typed fields -/

namespace Json

/-- A field for a mapping: missing, nothing or an object. -/
def isRangesField : Option Json → Bool
  | none | some null | some (obj _) => true
  | _ => false

/-- A field for a list of names: missing, nothing or a list of texts. -/
def isNamesField : Option Json → Bool
  | none | some null => true
  | some (arr vs) => vs.all isText
  | _ => false

/-- The text that a document is. -/
def text? : Json → Option Text
  | str t => some t
  | _ => none

theorem map_str_filterMap_text? {vs : List Json} (h : vs.all isText = true) :
    (vs.filterMap text?).map str = vs := by
  induction vs with
  | nil => rfl
  | cons v vs ih =>
    rw [List.all_cons, Bool.and_eq_true] at h
    obtain ⟨t, rfl⟩ := isText_iff.mp h.1
    rw [List.filterMap_cons, text?, List.map_cons, ih h.2]

theorem all_isText_map_str (ts : List Text) : (ts.map str).all isText = true := by
  simp [isText]

theorem all_isKey_map_str (ts : List Text) : (ts.map str).all isKey = true := by
  simp [isKey]

end Json

namespace Text

/-- The texts with others that they lack. -/
def union (ts others : List Text) : List Text :=
  others.foldl (fun ts t => if t ∈ ts then ts else ts ++ [t]) ts

theorem mem_union {ts others : List Text} {t : Text} :
    t ∈ union ts others ↔ t ∈ ts ∨ t ∈ others := by
  induction others generalizing ts with
  | nil => simp [union]
  | cons o others ih =>
    have h : t ∈ (if o ∈ ts then ts else ts ++ [o]) ↔ t ∈ ts ∨ t = o := by
      by_cases ho : o ∈ ts
      · rw [if_pos ho]
        exact ⟨Or.inl, fun h => h.elim id fun h => h ▸ ho⟩
      · rw [if_neg ho, List.mem_append, List.mem_singleton]
    rw [union, List.foldl_cons, ← union, ih, h, List.mem_cons, or_assoc]

end Text

namespace Fields

/-- A manifest whose maps are objects and whose bundled names are texts. -/
structure IsUber (u : Fields) : Prop where
  dev : Json.isRangesField (u.get? "devDependencies") = true
  dependencies : Json.isRangesField (u.get? "dependencies") = true
  bundled : Json.isNamesField (u.get? "bundledDependencies") = true

/-- The mapping that a field holds; a missing one is empty. -/
def ranges (field : Text) (u : Fields) : Fields :=
  match u.get? field with
  | some (.obj fs) => fs
  | _ => []

/-- The texts in a list that a field holds; a missing one is empty. -/
def texts (field : Text) (u : Fields) : List Text :=
  match u.get? field with
  | some (.arr vs) => vs.filterMap Json.text?
  | _ => []

/-- The names that a manifest bundles. -/
def names (u : Fields) : List Text := u.texts "bundledDependencies"

theorem orElse_ranges {u : Fields} {field : Text}
    (h : Json.isRangesField (u.get? field) = true) :
    Json.orElse (u.get? field) (.obj []) = .obj (u.ranges field) := by
  rw [ranges]
  match u.get? field, h with
  | none, _ => rfl
  | some .null, _ => rfl
  | some (.obj []), _ => rfl
  | some (.obj (f :: fs)), _ => rfl

theorem orElse_texts {u : Fields} {field : Text} (h : Json.isNamesField (u.get? field) = true) :
    Json.orElse (u.get? field) (.arr []) = .arr ((u.texts field).map Json.str) := by
  rw [texts]
  match u.get? field, h with
  | none, _ => rfl
  | some .null, _ => rfl
  | some (.arr []), _ => rfl
  | some (.arr (v :: vs)), h => exact congrArg Json.arr (Json.map_str_filterMap_text? h).symm

theorem ranges_congr {u u' : Fields} {field : Text} (h : u'.get? field = u.get? field) :
    u'.ranges field = u.ranges field := by
  rw [ranges, h, ranges]

theorem texts_congr {u u' : Fields} {field : Text} (h : u'.get? field = u.get? field) :
    u'.texts field = u.texts field := by
  rw [texts, h, texts]

theorem ranges_set_self (field : Text) (fs u : Fields) :
    (u.set field (.obj fs)).ranges field = fs := by
  rw [ranges, get?_set_self]

theorem texts_set_self (field : Text) (ts : List Text) (u : Fields) :
    (u.set field (.arr (ts.map Json.str))).texts field = ts := by
  rw [texts, get?_set_self]
  simp [List.filterMap_map, Function.comp_def, Json.text?]

theorem set_set (key : Text) (v w : Json) (fs : Fields) :
    (fs.set key v).set key w = fs.set key w := by
  induction fs with
  | nil => simp [set]
  | cons f fs ih =>
    obtain ⟨k, x⟩ := f
    by_cases h : k = key <;> simp [set, h, ih]

/-! ## Changes to the fields -/

/-- The mapping in a field with entries set in it, in order of name. -/
def setRanges (u : Fields) (field : Text) (entries : Fields) : Fields :=
  if entries = [] then u else u.set field (.obj ((u.ranges field).update entries).sorted)

/-- The bundled names with others, in order. -/
def addNames (u : Fields) (additions : List Text) : Fields :=
  if additions = [] then u
  else u.set "bundledDependencies" (.arr ((Text.sort (Text.union u.names additions)).map Json.str))

/-- The fields without those of some names. -/
def eraseAll (fs : Fields) (pruned : List Text) : Fields := fs.filter fun f => !pruned.contains f.1

/-- The dependencies without those of some names. -/
def pruneRanges (u : Fields) (pruned : List Text) : Fields :=
  match u.get? "dependencies" with
  | some (.obj fs) =>
    if pruned = [] then u else u.set "dependencies" (.obj (eraseAll fs pruned))
  | _ => u

/-- The bundled names without some. -/
def pruneNames (u : Fields) (pruned : List Text) : Fields :=
  if pruned = [] then u
  else
    match u.get? "bundledDependencies" with
    | none => u
    | some _ =>
      u.set "bundledDependencies"
        (.arr ((u.names.filter fun t => !pruned.contains t).map Json.str))

theorem get?_setRanges_of_ne {field other : Text} (h : other ≠ field) (u entries : Fields) :
    (u.setRanges field entries).get? other = u.get? other := by
  rw [setRanges]
  split
  · rfl
  · exact get?_set_of_ne h _ _

theorem get?_ranges_setRanges (u : Fields) (field : Text) (entries : Fields) (k : Text) :
    ((u.setRanges field entries).ranges field).get? k =
      (get? k entries.reverse).or ((u.ranges field).get? k) := by
  rw [setRanges]
  split
  · next h => rw [h]; rfl
  · rw [ranges_set_self, get?_sorted, get?_update]

theorem isRangesField_setRanges {u : Fields} {field : Text}
    (h : Json.isRangesField (u.get? field) = true) (entries : Fields) :
    Json.isRangesField ((u.setRanges field entries).get? field) = true := by
  rw [setRanges]
  split
  · exact h
  · rw [get?_set_self]; rfl

theorem get?_addNames_of_ne {other : Text} (h : other ≠ "bundledDependencies") (u : Fields)
    (additions : List Text) : (u.addNames additions).get? other = u.get? other := by
  rw [addNames]
  split
  · rfl
  · exact get?_set_of_ne h _ _

theorem mem_names_addNames {u : Fields} {additions : List Text} {t : Text} :
    t ∈ (u.addNames additions).names ↔ t ∈ u.names ∨ t ∈ additions := by
  rw [addNames]
  split
  · next h => simp [h]
  · rw [names, texts_set_self, Text.mem_sort, Text.mem_union]

theorem isNamesField_addNames {u : Fields}
    (h : Json.isNamesField (u.get? "bundledDependencies") = true) (additions : List Text) :
    Json.isNamesField ((u.addNames additions).get? "bundledDependencies") = true := by
  rw [addNames]
  split
  · exact h
  · rw [get?_set_self]
    exact Json.all_isText_map_str _

theorem eraseAll_nil (fs : Fields) : eraseAll fs [] = fs := by
  simp [eraseAll]

theorem get?_eraseAll (fs : Fields) (pruned : List Text) (k : Text) :
    get? k (eraseAll fs pruned) = if k ∈ pruned then none else get? k fs := by
  induction fs with
  | nil => simp [eraseAll, get?]
  | cons f fs ih =>
    obtain ⟨n, v⟩ := f
    simp only [eraseAll] at ih ⊢
    by_cases hn : n ∈ pruned
    · rw [List.filter_cons_of_neg (by simpa using hn), ih]
      by_cases hk : k ∈ pruned
      · rw [if_pos hk, if_pos hk]
      · have hne : n ≠ k := fun h => hk (h ▸ hn)
        rw [if_neg hk, if_neg hk, get?, if_neg hne]
    · rw [List.filter_cons_of_pos (by simpa using hn), get?, get?, ih]
      by_cases hk : n = k
      · rw [if_pos hk, if_pos hk, if_neg (hk ▸ hn)]
      · rw [if_neg hk, if_neg hk]

theorem get?_pruneRanges_of_ne {other : Text} (h : other ≠ "dependencies") (u : Fields)
    (pruned : List Text) : (u.pruneRanges pruned).get? other = u.get? other := by
  rw [pruneRanges]
  split
  · split
    · rfl
    · exact get?_set_of_ne h _ _
  · rfl

theorem get?_ranges_pruneRanges (u : Fields) (pruned : List Text) (k : Text) :
    ((u.pruneRanges pruned).ranges "dependencies").get? k =
      if k ∈ pruned then none else (u.ranges "dependencies").get? k := by
  rw [pruneRanges]
  split
  · next fs hd =>
    have hr : u.ranges "dependencies" = fs := by rw [ranges, hd]
    split
    · next h => simp [h]
    · rw [ranges_set_self, get?_eraseAll, hr]
  · next hd =>
    have hr : u.ranges "dependencies" = [] := by
      rw [ranges]
      split
      · next fs h => exact absurd h (hd fs)
      · rfl
    simp [hr, get?]

theorem isRangesField_pruneRanges {u : Fields}
    (h : Json.isRangesField (u.get? "dependencies") = true) (pruned : List Text) :
    Json.isRangesField ((u.pruneRanges pruned).get? "dependencies") = true := by
  rw [pruneRanges]
  split
  · split
    · exact h
    · rw [get?_set_self]; rfl
  · exact h

theorem get?_pruneNames_of_ne {other : Text} (h : other ≠ "bundledDependencies") (u : Fields)
    (pruned : List Text) : (u.pruneNames pruned).get? other = u.get? other := by
  rw [pruneNames]
  split
  · rfl
  · split
    · rfl
    · exact get?_set_of_ne h _ _

theorem mem_names_pruneNames {u : Fields} {pruned : List Text} {t : Text} :
    t ∈ (u.pruneNames pruned).names ↔ t ∈ u.names ∧ t ∉ pruned := by
  rw [pruneNames]
  split
  · next h => simp [h]
  · split
    · next hb => simp [names, texts, hb]
    · rw [names, texts_set_self]
      simp

theorem isNamesField_pruneNames {u : Fields}
    (h : Json.isNamesField (u.get? "bundledDependencies") = true) (pruned : List Text) :
    Json.isNamesField ((u.pruneNames pruned).get? "bundledDependencies") = true := by
  rw [pruneNames]
  split
  · exact h
  · split
    · exact h
    · rw [get?_set_self]
      exact Json.all_isText_map_str _

/-! ## All changes together -/

/-- The manifest after all corrections. -/
def corrected (u dev : Fields) (additions : List Text) (deps : Fields) (pruned : List Text) :
    Fields :=
  ((((u.setRanges "devDependencies" dev).addNames additions).setRanges "dependencies"
    deps).pruneRanges pruned).pruneNames pruned

section Corrected

variable (u dev : Fields) (additions : List Text) (deps : Fields) (pruned : List Text)

theorem get?_corrected_of_ne {k : Text} (hd : k ≠ "devDependencies")
    (hb : k ≠ "bundledDependencies") (hr : k ≠ "dependencies") :
    (u.corrected dev additions deps pruned).get? k = u.get? k := by
  rw [corrected, get?_pruneNames_of_ne hb, get?_pruneRanges_of_ne hr, get?_setRanges_of_ne hr,
    get?_addNames_of_ne hb, get?_setRanges_of_ne hd]

theorem get?_ranges_corrected_dev (k : Text) :
    ((u.corrected dev additions deps pruned).ranges "devDependencies").get? k =
      (get? k dev.reverse).or ((u.ranges "devDependencies").get? k) := by
  have h : (u.corrected dev additions deps pruned).get? "devDependencies" =
      (u.setRanges "devDependencies" dev).get? "devDependencies" := by
    rw [corrected, get?_pruneNames_of_ne (by decide), get?_pruneRanges_of_ne (by decide),
      get?_setRanges_of_ne (by decide), get?_addNames_of_ne (by decide)]
  rw [ranges_congr h, get?_ranges_setRanges]

theorem get?_ranges_corrected (k : Text) :
    ((u.corrected dev additions deps pruned).ranges "dependencies").get? k =
      if k ∈ pruned then none
      else (get? k deps.reverse).or ((u.ranges "dependencies").get? k) := by
  have h : ((u.setRanges "devDependencies" dev).addNames additions).get? "dependencies" =
      u.get? "dependencies" := by
    rw [get?_addNames_of_ne (by decide), get?_setRanges_of_ne (by decide)]
  rw [corrected, ranges_congr (get?_pruneNames_of_ne (by decide) _ _), get?_ranges_pruneRanges,
    get?_ranges_setRanges, ranges_congr h]

theorem mem_names_corrected {t : Text} :
    t ∈ (u.corrected dev additions deps pruned).names ↔
      (t ∈ u.names ∨ t ∈ additions) ∧ t ∉ pruned := by
  rw [corrected, mem_names_pruneNames, names, texts_congr (get?_pruneRanges_of_ne (by decide) _ _),
    texts_congr (get?_setRanges_of_ne (by decide) _ _), ← names, mem_names_addNames, names,
    texts_congr (get?_setRanges_of_ne (by decide) _ _), ← names]

theorem IsUber.corrected {u : Fields} (h : u.IsUber) :
    (u.corrected dev additions deps pruned).IsUber where
  dev := by
    rw [Fields.corrected, get?_pruneNames_of_ne (by decide), get?_pruneRanges_of_ne (by decide),
      get?_setRanges_of_ne (by decide), get?_addNames_of_ne (by decide)]
    exact isRangesField_setRanges h.dev dev
  dependencies := by
    rw [Fields.corrected, get?_pruneNames_of_ne (by decide)]
    refine isRangesField_pruneRanges (isRangesField_setRanges ?_ deps) pruned
    rw [get?_addNames_of_ne (by decide), get?_setRanges_of_ne (by decide)]
    exact h.dependencies
  bundled := by
    refine isNamesField_pruneNames ?_ pruned
    rw [get?_pruneRanges_of_ne (by decide), get?_setRanges_of_ne (by decide)]
    refine isNamesField_addNames ?_ additions
    rw [get?_setRanges_of_ne (by decide)]
    exact h.bundled

end Corrected

end Fields

/-! ## Corrections over texts -/

namespace ManifestCorrections

/-- Corrections that name packages and ranges in texts. -/
def ofTexts (dev : Fields) (additions : List Text) (deps : Fields) (pruned : List Text) :
    ManifestCorrections where
  devDependencies := Mapping.ofFields dev
  bundledAdditions := additions.map Json.str
  dependencies := Mapping.ofFields deps
  pruned := pruned.map Json.str

theorem merged_ofFields {u : Fields} {field : Text}
    (h : Json.isRangesField (u.get? field) = true) (entries : Fields) :
    merged (Mapping.ofFields u) field (Mapping.ofFields entries) =
      .ok (Mapping.ofFields ((u.ranges field).update entries).sorted) := by
  rw [merged, Mapping.get?_ofFields, Fields.orElse_ranges h]
  show sortedMapping ((Mapping.ofFields (u.ranges field)).update (Mapping.ofFields entries)) = _
  rw [Mapping.update_ofFields, sortedMapping, Mapping.sort?_ofFields]

theorem extend_map_str (ts others : List Text) :
    extend (ts.map Json.str) (others.map Json.str) = (Text.union ts others).map Json.str := by
  induction others generalizing ts with
  | nil => rfl
  | cons o others ih =>
    have h : (if (Json.str o).isIn (ts.map Json.str) then ts.map Json.str
        else ts.map Json.str ++ [Json.str o]) =
        (if o ∈ ts then ts else ts ++ [o]).map Json.str := by
      rw [Json.isIn_map_str]
      by_cases ho : o ∈ ts <;> simp [ho]
    have hi := ih (if o ∈ ts then ts else ts ++ [o])
    rw [extend, Text.union] at hi ⊢
    rw [List.map_cons, List.foldl_cons, List.foldl_cons, h, hi]

theorem prune_ofFields (c : ManifestCorrections) (pruned : List Text)
    (h : c.pruned = pruned.map Json.str) (fs : Fields) :
    c.prune (Mapping.ofFields fs) = Mapping.ofFields (Fields.eraseAll fs pruned) := by
  rw [prune, h]
  clear h
  induction pruned generalizing fs with
  | nil => rw [List.map_nil, List.foldl_nil, Fields.eraseAll_nil]
  | cons p pruned ih =>
    rw [List.map_cons, List.foldl_cons, Mapping.erase_ofFields, ih, Fields.erase, Fields.eraseAll,
      Fields.eraseAll, List.filter_filter]
    refine congrArg Mapping.ofFields (List.filter_congr fun f _ => ?_)
    by_cases hf : f.1 = p <;> simp [hf]

section OfTexts

variable {u : Fields} (dev : Fields) (additions : List Text) (deps : Fields) (pruned : List Text)

theorem applyDev_ofTexts (h : Json.isRangesField (u.get? "devDependencies") = true) :
    (ofTexts dev additions deps pruned).applyDev (Mapping.ofFields u) =
      .ok (Mapping.ofFields (u.setRanges "devDependencies" dev)) := by
  rw [applyDev, Fields.setRanges]
  cases dev with
  | nil => rfl
  | cons f dev =>
    rw [if_neg (by simp [ofTexts]), if_neg (by simp)]
    show (merged _ _ (Mapping.ofFields (f :: dev)) >>= _) = _
    rw [merged_ofFields h]
    show Except.ok _ = _
    rw [Mapping.toObject_ofFields, Mapping.set_ofFields]

theorem applyBundled_ofTexts (h : Json.isNamesField (u.get? "bundledDependencies") = true) :
    (ofTexts dev additions deps pruned).applyBundled (Mapping.ofFields u) =
      .ok (Mapping.ofFields (u.addNames additions)) := by
  rw [applyBundled, Fields.addNames]
  cases additions with
  | nil => rfl
  | cons a additions =>
    rw [if_neg (by simp [ofTexts]), if_neg (by simp), Mapping.get?_ofFields, Fields.orElse_texts h]
    show (sorted (extend (u.names.map Json.str) ((a :: additions).map Json.str)) >>= _) = _
    rw [extend_map_str, sorted, Json.sort?_map_str]
    show Except.ok _ = _
    rw [Mapping.set_ofFields]

theorem applyDependencies_ofTexts (h : Json.isRangesField (u.get? "dependencies") = true) :
    (ofTexts dev additions deps pruned).applyDependencies (Mapping.ofFields u) =
      .ok (Mapping.ofFields ((u.setRanges "dependencies" deps).pruneRanges pruned)) := by
  have hp := prune_ofFields (ofTexts dev additions deps pruned) pruned rfl
  rw [applyDependencies, Fields.pruneRanges, Fields.setRanges]
  cases deps with
  | nil =>
    have he : (ofTexts dev additions [] pruned).dependencies.isEmpty = true := rfl
    rw [if_pos he, if_pos rfl, Mapping.get?_ofFields]
    rcases u.get? "dependencies" with _ | v
    · rfl
    · cases v with
      | obj fs =>
        cases pruned with
        | nil => rfl
        | cons p pruned =>
          show Except.ok (Mapping.set _ (prune _ (Mapping.ofFields fs)).toObject _) = _
          rw [hp, Mapping.toObject_ofFields, Mapping.set_ofFields]
          rfl
      | _ => rfl
  | cons f deps =>
    rw [if_neg (by simp [ofTexts]), if_neg (by simp)]
    show (merged _ _ (Mapping.ofFields (f :: deps)) >>= _) = _
    rw [merged_ofFields h, Fields.get?_set_self]
    show Except.ok _ = _
    rw [hp, Mapping.toObject_ofFields, Mapping.set_ofFields]
    dsimp only
    split
    · next h => rw [h, Fields.eraseAll_nil]
    · rw [Fields.set_set]

theorem without_map_str (ts : List Text) :
    without (pruned.map Json.str) (ts.map Json.str) =
      .ok ((ts.filter fun t => !pruned.contains t).map Json.str) := by
  rw [without, if_pos (Json.all_isKey_map_str ts), List.filter_map]
  refine congrArg (fun l => Except.ok (List.map Json.str l)) (List.filter_congr fun t _ => ?_)
  simp [Json.isIn_map_str]

/-- Pruning names needs a list of names, if there is a field for them. -/
theorem applyPruned_ofTexts (h : Json.isNamesField (u.get? "bundledDependencies") = true)
    (hn : u.get? "bundledDependencies" = some .null → pruned = []) :
    (ofTexts dev additions deps pruned).applyPruned (Mapping.ofFields u) =
      .ok (Mapping.ofFields (u.pruneNames pruned)) := by
  rw [applyPruned, Fields.pruneNames]
  cases pruned with
  | nil => rfl
  | cons p pruned =>
    have hk : (ofTexts dev additions deps (p :: pruned)).pruned.all Json.isKey = true :=
      Json.all_isKey_map_str _
    have hk' : ¬ (!(ofTexts dev additions deps (p :: pruned)).pruned.all Json.isKey) = true := by
      rw [hk]; decide
    rw [if_neg (by simp [ofTexts]), if_neg hk', if_neg (by simp), Mapping.get?_ofFields]
    have ho := Fields.orElse_texts h
    rw [← Fields.names] at ho
    cases hb : u.get? "bundledDependencies" with
    | none => rfl
    | some v =>
      have hv : v = .arr (u.names.map Json.str) := by
        rw [hb] at h hn ho
        match v, h with
        | .null, _ => exact absurd (hn rfl) (by simp)
        | .arr [], _ => exact ho
        | .arr (w :: vs), _ => exact ho
      rw [hv]
      show (without ((p :: pruned).map Json.str) (u.names.map Json.str) >>= _) = _
      rw [without_map_str]
      show Except.ok _ = _
      rw [Mapping.set_ofFields]

/-- Corrections over texts turn a well-typed manifest into `Fields.corrected`. -/
theorem apply_ofTexts (h : u.IsUber)
    (hn : u.get? "bundledDependencies" = some .null → additions = [] → pruned = []) :
    (ofTexts dev additions deps pruned).apply (.obj u) =
      .ok (.obj (u.corrected dev additions deps pruned)) := by
  let u₁ := u.setRanges "devDependencies" dev
  let u₂ := u₁.addNames additions
  let u₃ := (u₂.setRanges "dependencies" deps).pruneRanges pruned
  have hb₁ : u₁.get? "bundledDependencies" = u.get? "bundledDependencies" :=
    Fields.get?_setRanges_of_ne (by decide) _ _
  have hr₂ : u₂.get? "dependencies" = u.get? "dependencies" := by
    rw [Fields.get?_addNames_of_ne (by decide), Fields.get?_setRanges_of_ne (by decide)]
  have hb₃ : u₃.get? "bundledDependencies" = u₂.get? "bundledDependencies" := by
    rw [Fields.get?_pruneRanges_of_ne (by decide), Fields.get?_setRanges_of_ne (by decide)]
  have hnull : u₃.get? "bundledDependencies" = some .null → pruned = [] := by
    intro hu
    rw [hb₃] at hu
    by_cases ha : additions = []
    · have he : u₂ = u₁ := if_pos ha
      exact hn (by rw [← hb₁, ← he, hu]) ha
    · have he : u₂ = u₁.set "bundledDependencies" _ := if_neg ha
      rw [he, Fields.get?_set_self] at hu
      exact absurd (Option.some.inj hu) (by simp)
  have h₂ := applyBundled_ofTexts (u := u₁) dev additions deps pruned (hb₁ ▸ h.bundled)
  have h₃ := applyDependencies_ofTexts (u := u₂) dev additions deps pruned (hr₂ ▸ h.dependencies)
  have h₄ := applyPruned_ofTexts (u := u₃) dev additions deps pruned
    (hb₃ ▸ Fields.isNamesField_addNames (hb₁ ▸ h.bundled) additions) hnull
  show (applyDev _ (Mapping.ofFields u) >>= _) = _
  rw [applyDev_ofTexts dev additions deps pruned h.dev]
  show (applyBundled _ (Mapping.ofFields u₁) >>= _) = _
  rw [h₂]
  show (applyDependencies _ (Mapping.ofFields u₂) >>= _) = _
  rw [h₃]
  show (applyPruned _ (Mapping.ofFields u₃) >>= _) = _
  rw [h₄]
  exact congrArg Except.ok (Mapping.toObject_ofFields _)

end OfTexts

end ManifestCorrections

/-! ## Workspaces -/

namespace Fields

/-- A workspace whose entries that are not hoisted are texts, if it has an object for them. -/
def IsWorkspace (w : Fields) : Prop :=
  ∀ fs, w.get? "workspaces" = some (.obj fs) → Json.isNamesField (get? "nohoist" fs) = true

/-- The entries of a workspace that are not hoisted. -/
def nohoist (w : Fields) : List Text :=
  (WorkspaceCorrections.settings (w.get? "workspaces")).texts "nohoist"

/-- The workspace with more entries that are not hoisted. -/
def addNohoist (w : Fields) (entries : List Text) : Fields :=
  if entries = [] then w
  else
    w.set "workspaces" (.obj ((WorkspaceCorrections.settings (w.get? "workspaces")).set "nohoist"
      (.arr ((Text.sort (Text.union [] (w.nohoist ++ entries))).map Json.str))))

theorem isNamesField_settings {w : Fields} (h : w.IsWorkspace) :
    Json.isNamesField
      (Fields.get? "nohoist" (WorkspaceCorrections.settings (w.get? "workspaces"))) = true := by
  rcases hw : w.get? "workspaces" with _ | v
  · rfl
  · cases v with
    | obj fs => exact h fs hw
    | arr vs => simp [WorkspaceCorrections.settings, get?, Json.isNamesField, Text.ofString]
    | _ => rfl

theorem IsWorkspace.addNohoist {w : Fields} (h : w.IsWorkspace) (entries : List Text) :
    (w.addNohoist entries).IsWorkspace := by
  intro fs hf
  rw [Fields.addNohoist] at hf
  split at hf
  · exact h fs hf
  · rw [get?_set_self] at hf
    have he := Json.obj.inj (Option.some.inj hf)
    rw [← he, get?_set_self]
    exact Json.all_isText_map_str _

theorem mem_nohoist_addNohoist {w : Fields} {entries : List Text} {t : Text} :
    t ∈ (w.addNohoist entries).nohoist ↔ t ∈ w.nohoist ∨ t ∈ entries := by
  rw [addNohoist]
  split
  · next h => simp [h]
  · rw [nohoist, get?_set_self, WorkspaceCorrections.settings, texts_set_self, Text.mem_sort,
      Text.mem_union, List.mem_append]
    simp

end Fields

namespace WorkspaceCorrections

/-- Corrections over texts give a workspace for a well-typed one. -/
theorem apply_ofTexts {w : Fields} (h : w.IsWorkspace) (entries : List Text) :
    (WorkspaceCorrections.mk (entries.map Json.str)).apply (.obj w) =
      .ok (.obj (w.addNohoist entries)) := by
  rw [Fields.addNohoist]
  cases entries with
  | nil => exact congrArg Except.ok (Mapping.toObject_ofFields w)
  | cons e entries =>
    have ho := Fields.orElse_texts (Fields.isNamesField_settings h)
    rw [← Fields.nohoist] at ho
    rw [apply, if_neg (by simp)]
    show (Except.bind (Json.elements (Json.orElse (Fields.get? "nohoist"
      (settings (Mapping.get? (.str "workspaces") (Mapping.ofFields w)))) (.arr []))) _) = _
    rw [Mapping.get?_ofFields, ho]
    show (Except.bind (distinct (w.nohoist.map Json.str ++ (e :: entries).map Json.str)) _) = _
    rw [← List.map_append, distinct, if_pos (Json.all_isKey_map_str _)]
    show (Except.bind (ManifestCorrections.sorted
      (ManifestCorrections.extend ([].map Json.str) _)) _) = _
    rw [ManifestCorrections.extend_map_str, ManifestCorrections.sorted, Json.sort?_map_str]
    show Except.ok _ = _
    rw [Mapping.set_ofFields, Mapping.toObject_ofFields]

end WorkspaceCorrections

end UberPackage
