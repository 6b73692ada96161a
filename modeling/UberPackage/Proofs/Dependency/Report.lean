/-
  What a plan reports is what it changes.

  Names, ranges and entries are the same in documents that are alike (`Fields.names_of_alike` and
  those after it).  A plan over texts has something to correct only if one of these differs
  (`Plan.Spelling.Exact`), and no correction undoes another one; so a document that is like the
  corrected one had nothing to be corrected (`Plan.Spelling.Exact.manifest_unchanged`,
  `Plan.Spelling.Exact.workspace_unchanged`).  And without a correction a document is left as it is.
-/
import UberPackage.Proofs.Dependency.Exact
import UberPackage.Proofs.Dependency.Merged
import UberPackage.Proofs.Json.Alike

namespace UberPackage

/-! ## The same in documents that are alike -/

namespace Fields

variable {u v : Fields}

theorem texts_canonical (field : Text) (u : Fields) : u.canonical.texts field = u.texts field := by
  rw [texts, texts, get?_canonical]
  rcases u.get? field with _ | v
  · rfl
  · cases v with
    | arr vs =>
      have htext : ∀ v : Json, v.canonical.text? = v.text? := fun v => by cases v <;> rfl
      simp only [Option.map_some, Json.canonical, Json.canonicalItems_eq, List.filterMap_map,
        Function.comp_def, htext]
    | _ => rfl

theorem nohoist_canonical (w : Fields) : w.canonical.nohoist = w.nohoist := by
  rw [nohoist, nohoist, get?_canonical]
  rcases w.get? "workspaces" with _ | v
  · rfl
  · cases v with
    | obj fs => exact texts_canonical "nohoist" fs
    | arr vs => simp [Json.canonical, WorkspaceCorrections.settings, texts, get?, Text.ofString]
    | _ => rfl

theorem get?_ranges_canonical (field : Text) (u : Fields) (k : Text) :
    (u.canonical.ranges field).get? k = ((u.ranges field).get? k).map Json.canonical := by
  rw [ranges, ranges, get?_canonical]
  rcases u.get? field with _ | v
  · rfl
  · cases v with
    | obj fs => exact get?_canonical fs k
    | _ => rfl

section Alike

variable (h : Json.Alike (.obj u) (.obj v))
include h

theorem names_of_alike : u.names = v.names := by
  rw [names, ← texts_canonical, Json.alike_obj.mp h, texts_canonical, names]

theorem nohoist_of_alike : u.nohoist = v.nohoist := by
  rw [← nohoist_canonical, Json.alike_obj.mp h, nohoist_canonical]

/-- A range that is a text is the same in documents that are alike. -/
theorem get?_ranges_of_alike {field k t : Text} (hu : (u.ranges field).get? k = some (.str t)) :
    (v.ranges field).get? k = some (.str t) := by
  have hsame := get?_ranges_canonical field u k
  rw [Json.alike_obj.mp h, get?_ranges_canonical, hu, Option.map_some] at hsame
  obtain ⟨x, hx, hcanonical⟩ := Option.map_eq_some_iff.mp hsame
  rw [hx, Json.eq_str_of_canonical hcanonical]

end Alike

/-- Nothing is corrected. -/
theorem corrected_nil (u : Fields) : u.corrected [] [] [] [] = u := by
  show u.pruneRanges [] = u
  rw [pruneRanges]
  split
  · exact if_pos rfl
  · rfl

theorem update_nil_eq_nil {entries : Fields} : update [] entries = [] ↔ entries = [] := by
  have hkeys := keys_update [] entries
  constructor
  · intro h
    rw [h] at hkeys
    refine List.eq_nil_iff_forall_not_mem.mpr fun e he => ?_
    have hmem : e.1 ∈ Text.union [] (keys entries) :=
      Text.mem_union.mpr (Or.inr (List.mem_map_of_mem he))
    exact absurd (show e.1 ∈ keys [] from hkeys ▸ hmem) List.not_mem_nil
  · rintro rfl
    rfl

end Fields

/-! ## Plans -/

theorem ManifestCorrections.changed_ofTexts_eq_false {dev deps : Fields}
    {additions pruned : List Text} :
    (ofTexts dev additions deps pruned).changed = false ↔
      dev = [] ∧ additions = [] ∧ deps = [] ∧ pruned = [] := by
  simp [changed, ofTexts, Mapping.ofFields, and_assoc]

namespace Plan

variable {libraries : List Library} {u w : Fields} {p : Plan}

theorem Spelling.changed_manifest (s : Spelling libraries u w p) :
    p.manifest.changed = false ↔ s.versions = [] ∧ s.additions = [] ∧ s.ranges = [] ∧
    s.spurious = [] := by
  rw [s.manifest_eq, ManifestCorrections.changed_ofTexts_eq_false, Fields.update_nil_eq_nil,
    Fields.update_nil_eq_nil]

theorem Spelling.changed_workspace (s : Spelling libraries u w p) :
    p.workspace.changed = false ↔ s.found.flatMap Finding.entries = [] := by
  rw [WorkspaceCorrections.changed, s.nohoist_eq]
  simp

namespace Spelling.Exact

variable {s : Spelling libraries u w p} (hs : s.Exact) (hu : u.IsUber) (hw : w.IsWorkspace)
include hs hu hw

/-- A manifest that is like the corrected one had nothing to be corrected. -/
theorem manifest_unchanged (halike : Json.Alike (.obj s.manifest) (.obj u)) :
    p.manifest.changed = false := by
  have hnames := Fields.names_of_alike halike
  have hadditions : s.additions = [] := List.eq_nil_iff_forall_not_mem.mpr fun t ht => by
    obtain ⟨hkey, hmissing⟩ := (hs.mem_additions hu hw).mp ht
    exact hmissing (hnames ▸ (s.mem_names_manifest hu hw).mpr hkey)
  have hspurious : s.spurious = [] := List.eq_nil_iff_forall_not_mem.mpr fun t ht => by
    obtain ⟨hname, hnone⟩ := (s.mem_spurious_iff hu hw).mp ht
    rw [← hnames, s.mem_names_manifest hu hw] at hname
    exact Fields.get?_eq_none_iff.mp hnone hname
  -- of the entries for one name the last one is set, and it differs from the one in the document
  have hunset : ∀ (field : Text) (entries : Fields), (∀ e ∈ entries, e.2.isText = true) →
      (∀ e ∈ entries, (u.ranges field).get? e.1 ≠ some e.2) →
      (∀ k, (s.manifest.ranges field).get? k =
        (Fields.get? k entries.reverse).or ((u.ranges field).get? k)) →
      entries = [] := by
    intro field entries htexts hdiffers hset
    refine List.eq_nil_iff_forall_not_mem.mpr fun e he => ?_
    obtain ⟨v, hv⟩ : ∃ v, Fields.get? e.1 entries.reverse =
        some v := Option.ne_none_iff_exists'.mp fun hnone => by
      rw [Fields.get?_eq_none_iff] at hnone
      exact hnone (List.mem_map_of_mem (List.mem_reverse.mpr he))
    have hmem : (e.1, v) ∈ entries := List.mem_reverse.mp (Fields.mem_of_get? hv)
    obtain ⟨t, rfl⟩ := Json.isText_iff.mp (htexts _ hmem)
    exact hdiffers _ hmem (Fields.get?_ranges_of_alike halike (by rw [hset, hv]; rfl))
  have hversions : s.versions = [] := by
    refine hunset "devDependencies" _ (fun e he => ?_) (fun e he => ?_) fun k => ?_
    · obtain ⟨l, -, rfl, -⟩ := (hs.mem_versions hu hw).mp he
      rfl
    · obtain ⟨l, -, rfl, hdiffers⟩ := (hs.mem_versions hu hw).mp he
      exact hdiffers
    · rw [manifest, Fields.get?_ranges_corrected_dev, Fields.get?_reverse_update_nil]
  have hranges : s.ranges = [] := by
    refine hunset "dependencies" _ (fun e he => ?_) (fun e he => ?_) fun k => ?_
    · exact s.texts e (s.mem_bundle_of_range he)
    · exact ((hs.mem_ranges hu hw).mp he).2
    · rw [manifest, Fields.get?_ranges_corrected, hspurious, if_neg List.not_mem_nil,
        Fields.get?_reverse_update_nil]
  exact s.changed_manifest.mpr ⟨hversions, hadditions, hranges, hspurious⟩

/-- A workspace that is like the corrected one had nothing to be corrected. -/
theorem workspace_unchanged (halike : Json.Alike (.obj s.workspace) (.obj w)) :
    p.workspace.changed = false := by
  rw [s.changed_workspace]
  refine List.eq_nil_iff_forall_not_mem.mpr fun t ht => ?_
  -- each entry belongs to a name whose own entry has been missing
  obtain ⟨name, hname, hmissing, -⟩ := (hs.mem_entries hu hw).mp ht
  have hadded := (hs.mem_entries hu hw).mpr ⟨name, hname, hmissing, Or.inl rfl⟩
  refine hmissing (Fields.nohoist_of_alike halike ▸ ?_)
  exact Fields.mem_nohoist_addNohoist.mpr (Or.inr hadded)

end Spelling.Exact

/-- A plan reports that a document has to be changed if and only if correcting it makes a
difference, be the order of fields left aside; and what it does not report is left exactly as it
is. -/
structure Reports (p : Plan) (u u' w w' : Fields) : Prop where
  manifest : p.manifest.changed = true ↔ ¬ Json.Alike (.obj u') (.obj u)
  workspace : p.workspace.changed = true ↔ ¬ Json.Alike (.obj w') (.obj w)
  manifest_eq : p.manifest.changed = false → u' = u
  workspace_eq : p.workspace.changed = false → w' = w

theorem Spelling.Exact.reports {s : Spelling libraries u w p} (hs : s.Exact) (hu : u.IsUber)
    (hw : w.IsWorkspace) : p.Reports u s.manifest w s.workspace := by
  have hmanifest : p.manifest.changed = false → s.manifest = u := fun hunchanged => by
    obtain ⟨hversions, hadditions, hranges, hspurious⟩ := s.changed_manifest.mp hunchanged
    rw [Spelling.manifest, hversions, hadditions, hranges, hspurious]
    exact Fields.corrected_nil u
  have hworkspace : p.workspace.changed = false → s.workspace = w := fun hunchanged => by
    rw [Spelling.workspace, s.changed_workspace.mp hunchanged]
    rfl
  exact {
    manifest := by
      rw [← Bool.not_eq_false, not_iff_not]
      exact ⟨fun h => congrArg Json.canonical (congrArg Json.obj (hmanifest h)),
        hs.manifest_unchanged hu hw⟩
    workspace := by
      rw [← Bool.not_eq_false, not_iff_not]
      exact ⟨fun h => congrArg Json.canonical (congrArg Json.obj (hworkspace h)),
        hs.workspace_unchanged hu hw⟩
    manifest_eq := hmanifest
    workspace_eq := hworkspace }

end Plan

end UberPackage
