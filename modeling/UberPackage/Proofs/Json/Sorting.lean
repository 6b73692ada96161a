/-
  Fields in order of name.

  Fields are sorted alike when they have the same names and the same is looked up for them, whatever
  their order has been (`Fields.sorted_congr`).  No sorted field hides another one
  (`Fields.noneHidden_sorted`), and fields of which this holds are told by their names and by what
  is looked up (`Fields.ext_of_noneHidden`).
-/
import UberPackage.Proofs.Json.Mapping

namespace UberPackage

theorem Text.sort_congr {ts us : List Text} (h : ts.Perm us) : Text.sort ts = Text.sort us :=
  sort_of_perm (h.trans (sort_perm us).symm) (sorted_sort us)

namespace Fields

theorem set_of_get? {key : Text} {value : Json} {fs : Fields} (h : fs.get? key = some value) :
    fs.set key value = fs := by
  induction fs with
  | nil => cases h
  | cons f fs ih =>
    obtain ⟨k, v⟩ := f
    rw [get?] at h
    rw [set]
    split at h
    · next hk => rw [if_pos hk, Option.some.inj h]
    · next hk => rw [if_neg hk, ih h]

/-! ## Order -/

/-- Fields are sorted alike when they have the same names in any order, and the same is looked up
for them. -/
theorem sorted_congr {fs gs : Fields} (hkeys : fs.keys.Perm gs.keys)
    (hget : ∀ k, fs.get? k = gs.get? k) : fs.sorted = gs.sorted := by
  rw [sorted, sorted, Text.sort_congr hkeys]
  simp only [hget]

/-- Each field is what is looked up for its name. -/
def NoneHidden (fs : Fields) : Prop := ∀ f ∈ fs, fs.get? f.1 = some f.2

theorem noneHidden_sorted (fs : Fields) : fs.sorted.NoneHidden := by
  intro f hf
  obtain ⟨k, -, hf⟩ := List.mem_filterMap.mp hf
  obtain ⟨v, hv, rfl⟩ := Option.map_eq_some_iff.mp hf
  rw [get?_sorted, hv]

theorem NoneHidden.eq_filterMap {fs : Fields} (h : fs.NoneHidden) :
    fs = fs.keys.filterMap fun k => (fs.get? k).map (k, ·) := by
  rw [keys, List.filterMap_map]
  refine (List.filterMap_some.symm).trans (List.filterMap_congr fun f hf => ?_)
  rw [Function.comp_apply, h f hf, Option.map_some]

/-- Fields of which none is hidden are told by their names and by what is looked up. -/
theorem ext_of_noneHidden {fs gs : Fields} (hf : fs.NoneHidden) (hg : gs.NoneHidden)
    (hkeys : fs.keys = gs.keys) (hget : ∀ k, fs.get? k = gs.get? k) : fs = gs := by
  rw [hf.eq_filterMap, hg.eq_filterMap, hkeys]
  simp only [hget]

end Fields

end UberPackage
