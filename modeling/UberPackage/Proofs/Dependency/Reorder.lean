/-
  Libraries in another order.

  A correction depends on what is set, added and pruned, and not on the order of these
  (`Fields.corrected_congr`, `Fields.addNohoist_congr`): what has been set or added is sorted, and
  pruning keeps the order of the document.  Libraries in another order have the same bundle but for
  its order (`Bundle.collect_exact`), so their plans set, add and prune the same
  (`Plan.Spelling.Exact`); and what is set for a name is unique, for the libraries have different
  names.  So the corrected documents are the same (`Plan.make_perm`).
-/
import UberPackage.Proofs.Dependency.Exact
import UberPackage.Proofs.Dependency.Merged
import UberPackage.Proofs.Dependency.Requirement

namespace UberPackage

/-! ## Corrections depend on members alone -/

theorem eq_nil_iff_of_mem_iff {α : Type} {as bs : List α} (h : ∀ a, a ∈ as ↔ a ∈ bs) :
    as = [] ↔ bs = [] := by
  simp only [List.eq_nil_iff_forall_not_mem, h]

namespace Fields

variable {u w : Fields}

/-- Entries with the same members, none of which sets a name to two values, set the same. -/
theorem get?_reverse_congr {entries others : Fields} (hmem : ∀ e, e ∈ entries ↔ e ∈ others)
    (hunique : ∀ k v v', (k, v) ∈ entries → (k, v') ∈ entries → v = v') (k : Text) :
    get? k entries.reverse = get? k others.reverse := by
  cases h : get? k entries.reverse with
  | some v =>
    have hv : (k, v) ∈ entries := List.mem_reverse.mp (mem_of_get? h)
    have hsame : ∀ v', (k, v') ∈ others → v' = v :=
      fun v' hv' => hunique k v' v ((hmem _).mpr hv') hv
    rcases get?_reverse_of_unique hsame with hget | ⟨-, hnone⟩
    · exact hget.symm
    · exact absurd ((hmem _).mp hv) (hnone v)
  | none =>
    symm
    rw [get?_eq_none_iff] at h ⊢
    simpa [keys, hmem] using h

/-- Entries that set the same name the same. -/
theorem mem_keys_congr {entries others : Fields}
    (h : ∀ k, get? k entries.reverse = get? k others.reverse) (k : Text) :
    k ∈ entries.keys ↔ k ∈ others.keys := by
  have hnone : ∀ fs : Fields, get? k fs.reverse = none ↔ k ∉ fs.keys := fun fs => by
    rw [get?_eq_none_iff]
    simp [keys]
  rw [← not_iff_not, ← hnone, ← hnone, h]

theorem setRanges_congr {entries others : Fields} (field : Text)
    (h : ∀ k, get? k entries.reverse = get? k others.reverse) :
    u.setRanges field entries = u.setRanges field others := by
  have hkeys := mem_keys_congr h
  have hnil : entries = [] ↔ others = [] := by
    simpa only [keys, List.map_eq_nil_iff] using eq_nil_iff_of_mem_iff hkeys
  have hsorted :
      ((u.ranges field).update entries).sorted = ((u.ranges field).update others).sorted := by
    refine sorted_congr ?_ fun k => ?_
    · rw [keys_update, keys_update]
      exact Text.union_perm _ hkeys
    · rw [get?_update, get?_update, h]
  rw [setRanges, setRanges, hsorted]
  simp only [hnil]

theorem addNames_congr {additions others : List Text} (h : ∀ t, t ∈ additions ↔ t ∈ others) :
    u.addNames additions = u.addNames others := by
  rw [addNames, addNames, Text.sort_congr (Text.union_perm u.names h)]
  simp only [eq_nil_iff_of_mem_iff h]

theorem not_contains_congr {pruned others : List Text} (h : ∀ t, t ∈ pruned ↔ t ∈ others) :
    (fun t => !pruned.contains t) = fun t => !others.contains t := by
  funext t
  rw [Bool.eq_iff_iff]
  simp [h]

theorem pruneRanges_congr {pruned others : List Text} (h : ∀ t, t ∈ pruned ↔ t ∈ others) :
    u.pruneRanges pruned = u.pruneRanges others := by
  have herase : ∀ fs : Fields, fs.eraseAll pruned = fs.eraseAll others := fun fs =>
    List.filter_congr fun f _ => congrFun (not_contains_congr h) f.1
  simp only [pruneRanges, herase, eq_nil_iff_of_mem_iff h]

theorem pruneNames_congr {pruned others : List Text} (h : ∀ t, t ∈ pruned ↔ t ∈ others) :
    u.pruneNames pruned = u.pruneNames others := by
  simp only [pruneNames, not_contains_congr h, eq_nil_iff_of_mem_iff h]

/-- Corrections that set, add and prune the same correct alike. -/
theorem corrected_congr {dev dev' deps deps' : Fields}
    {additions additions' pruned pruned' : List Text} (hdev : ∀ k, get? k dev.reverse =
      get? k dev'.reverse) (hadd : ∀ t, t ∈ additions ↔ t ∈ additions')
    (hdeps : ∀ k, get? k deps.reverse = get? k deps'.reverse)
    (hpruned : ∀ t, t ∈ pruned ↔ t ∈ pruned') :
    u.corrected dev additions deps pruned = u.corrected dev' additions' deps' pruned' := by
  rw [corrected, setRanges_congr _ hdev, addNames_congr hadd, setRanges_congr _ hdeps,
    pruneRanges_congr hpruned,
    pruneNames_congr hpruned, corrected]

theorem addNohoist_congr {entries others : List Text} (h : ∀ t, t ∈ entries ↔ t ∈ others) :
    w.addNohoist entries = w.addNohoist others := by
  have hall : ∀ t, t ∈ w.nohoist ++ entries ↔ t ∈ w.nohoist ++ others := fun t => by
    rw [List.mem_append, List.mem_append, h]
  rw [addNohoist, addNohoist, Text.sort_congr (Text.union_perm [] hall)]
  simp only [eq_nil_iff_of_mem_iff h]

end Fields

/-! ## Bundles of libraries in another order -/

namespace Bundle

/-- Libraries that have a bundle can be read. -/
theorem canBundle_of_collect {libraries : List Library}
    (texts : ∀ l ∈ libraries, l.HasTextRanges) {b : Bundle} (h : collect libraries = .ok b) :
    ∀ l ∈ libraries, l.CanBundle := by
  intro l hl
  obtain ⟨first, rest, rfl⟩ := List.append_of_mem hl
  obtain ⟨b₁, b₂, -, hadd, -⟩ := foldlM_ok_split h
  rw [addLibrary] at hadd
  simp only [except_bind_eq_ok] at hadd
  obtain ⟨dev, hd, runtime, hr, names, hn, -⟩ := hadd
  refine ⟨dev, runtime, names, fitting_ok hd, fitting_ok hr, fitting_ok hn, fun name hname => ?_⟩
  obtain ⟨t, rfl⟩ := Json.isText_iff.mp ((texts l hl).bundled names (fitting_ok hn) name hname)
  rfl

/-- Libraries have a bundle in any order, and the same one but for its order. -/
theorem exists_perm_of_collect {libraries others : List Library}
    (texts : ∀ l ∈ libraries, l.HasTextRanges) (hperm : libraries.Perm others) {b : Bundle}
    (h : collect libraries = .ok b) : ∃ b', collect others = .ok b' ∧ b'.Perm b :=
  ((collect_exact texts (canBundle_of_collect texts h)).2.2 others hperm).2 b h

end Bundle

/-! ## Plans for libraries in another order -/

namespace Plan

variable {libraries others : List Library} {u w : Fields} {p p' : Plan}

namespace Spelling.Exact

variable {s : Spelling libraries u w p} {s' : Spelling others u w p'} (hs : s.Exact)
  (hs' : s'.Exact) (hu : u.IsUber) (hw : w.IsWorkspace)
include hs hs' hu hw

/-- Plans for libraries in another order correct the manifest alike. -/
theorem manifest_congr (hperm : libraries.Perm others) (names : (libraries.map Library.name).Nodup)
    (hbundle : ∀ e, e ∈ s.bundle ↔ e ∈ s'.bundle) : s.manifest = s'.manifest := by
  have hkeys : ∀ k, k ∈ s.bundle.keys ↔ k ∈ s'.bundle.keys := fun k => by
    simp only [Fields.keys, List.mem_map, hbundle]
  have hversions : ∀ e, e ∈ s.versions ↔ e ∈ s'.versions := fun e => by
    rw [hs.mem_versions hu hw, hs'.mem_versions hu hw]
    simp only [hperm.mem_iff]
  have hranges : ∀ e, e ∈ s.ranges ↔ e ∈ s'.ranges := fun e => by
    rw [hs.mem_ranges hu hw, hs'.mem_ranges hu hw, hbundle]
  refine Fields.corrected_congr (fun k => ?_) (fun t => ?_) (fun k => ?_) fun t => ?_
  · rw [Fields.get?_reverse_update_nil, Fields.get?_reverse_update_nil]
    refine Fields.get?_reverse_congr hversions (fun k v v' hv hv' => ?_) k
    obtain ⟨l, hl, he, -⟩ := (hs.mem_versions hu hw).mp hv
    obtain ⟨l', hl', he', -⟩ := (hs.mem_versions hu hw).mp hv'
    obtain ⟨rfl, rfl⟩ := Prod.mk.inj he
    obtain ⟨hname, rfl⟩ := Prod.mk.inj he'
    rw [List.inj_on_of_nodup_map names hl hl' hname]
  · rw [hs.mem_additions hu hw, hs'.mem_additions hu hw, hkeys]
  · rw [Fields.get?_reverse_update_nil, Fields.get?_reverse_update_nil]
    refine Fields.get?_reverse_congr hranges (fun k v v' hv hv' => ?_) k
    have he := s.mem_bundle_of_range hv
    have he' := s.mem_bundle_of_range hv'
    exact congrArg Prod.snd (List.inj_on_of_nodup_map s.nodup he he' rfl)
  · rw [s.mem_spurious_iff hu hw, s'.mem_spurious_iff hu hw, Fields.get?_eq_none_iff,
      Fields.get?_eq_none_iff, hkeys]

theorem workspace_congr (hbundle : ∀ e, e ∈ s.bundle ↔ e ∈ s'.bundle) :
    s.workspace = s'.workspace := by
  have hkeys : ∀ k, k ∈ s.bundle.keys ↔ k ∈ s'.bundle.keys := fun k => by
    simp only [Fields.keys, List.mem_map, hbundle]
  refine Fields.addNohoist_congr fun t => ?_
  rw [hs.mem_entries hu hw, hs'.mem_entries hu hw]
  simp only [hkeys]

end Spelling.Exact

theorem exists_make_of_perm (texts : ∀ l ∈ libraries, l.HasTextRanges) (hu : u.IsUber)
    (hw : w.IsWorkspace) (hperm : libraries.Perm others)
    (h : ∃ p, (make libraries (.obj u) (.obj w)).2 = .ok p) :
    ∃ p', (make others (.obj u) (.obj w)).2 = .ok p' := by
  obtain ⟨bundle, hb⟩ := (exists_make_iff hu hw).mp h
  obtain ⟨bundle', hb', -⟩ := Bundle.exists_perm_of_collect texts hperm hb
  exact (exists_make_iff hu hw).mpr ⟨bundle', hb'⟩

end Plan

end UberPackage
