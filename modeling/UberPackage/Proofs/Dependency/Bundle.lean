/-
  Bundles of libraries whose ranges are texts.

  Libraries that name what they bundle in texts, and whose ranges are texts, have a bundle of
  the same kind: it is the mapping of an object in which no name stands twice
  (`Bundle.isTexts_collect`).
-/
import UberPackage.Dependency.Bundle
import UberPackage.Proofs.Except
import UberPackage.Proofs.Json.TextKeys

namespace UberPackage

/-- The names to bundle and the ranges of a library are texts, as far as they can be read. -/
structure Library.HasTextRanges (l : Library) : Prop where
  dev : ∀ m, l.manifest.devDependencies = .ok m → ∀ e ∈ m, e.2.isText = true
  runtime : ∀ m, l.manifest.dependencies = .ok m → ∀ e ∈ m, e.2.isText = true
  bundled : ∀ names, l.manifest.bundled = .ok names → ∀ name ∈ names, name.isText = true

namespace Mapping

theorem mem_of_get? {key value : Json} {m : Mapping} (h : m.get? key = some value) :
    ∃ e ∈ m, e.2 = value := by
  induction m with
  | nil => exact absurd h (by simp [get?])
  | cons e m ih =>
    rw [get?] at h
    split at h
    · exact ⟨e, List.mem_cons_self, Option.some.inj h⟩
    · obtain ⟨e', he', hv⟩ := ih h
      exact ⟨e', List.mem_cons_of_mem _ he', hv⟩

end Mapping

namespace Bundle

/-- The bundle is the mapping of an object with texts for values, and no name stands twice. -/
def IsTexts (b : Bundle) : Prop :=
  ∃ fs : Fields, b = Mapping.ofFields fs ∧ fs.keys.Nodup ∧ ∀ f ∈ fs, f.2.isText = true

theorem isTexts_nil : IsTexts [] := ⟨[], rfl, List.nodup_nil, fun _ h => absurd h List.not_mem_nil⟩

/-- A requirement is a range of one of the mappings, or any version. -/
theorem requirement_of_forall {P : Json → Prop} (hany : P anyRange) {dev runtime : Mapping}
    (hd : ∀ e ∈ dev, P e.2) (hr : ∀ e ∈ runtime, P e.2) (name : Json) :
    P (requirement dev runtime name) := by
  have hrun : P ((runtime.get? name).getD anyRange) := by
    cases h : runtime.get? name with
    | none => exact hany
    | some range =>
      obtain ⟨e, he, rfl⟩ := Mapping.mem_of_get? h
      exact hr e he
  rw [requirement]
  split
  · exact hrun
  · exact hrun
  · next range _ h =>
    obtain ⟨e, he, rfl⟩ := Mapping.mem_of_get? h
    exact hd e he

theorem requirement_isText {dev runtime : Mapping} (hd : ∀ e ∈ dev, e.2.isText = true)
    (hr : ∀ e ∈ runtime, e.2.isText = true) (name : Json) :
    (requirement dev runtime name).isText = true :=
  requirement_of_forall (P := fun v => v.isText = true) rfl hd hr name

/-- One more requirement sets the name. -/
theorem add_ok {b b' : Bundle} {name range : Json} (h : b.add name range = .ok b') :
    b' = b.set name range := by
  rw [add] at h
  split at h
  · exact absurd h (by simp)
  · split at h
    · exact (Except.ok.inj h).symm
    · exact (Except.ok.inj h).symm
    · split at h
      · exact (Except.ok.inj h).symm
      · exact absurd h (by simp)

theorem isTexts_add {b b' : Bundle} {name range : Json} (hb : b.IsTexts)
    (hn : name.isText = true) (hr : range.isText = true) (h : b.add name range = .ok b') :
    b'.IsTexts := by
  obtain ⟨fs, rfl, hd, hv⟩ := hb
  obtain ⟨t, rfl⟩ := Json.isText_iff.mp hn
  refine ⟨fs.set t range, ?_, Fields.nodup_keys_set hd, fun f hf => ?_⟩
  · rw [add_ok h, Mapping.set_ofFields]
  · rcases Fields.mem_set hf with rfl | hf
    · exact hr
    · exact hv f hf

theorem fitting_ok {α : Type} {v : Except Misfit α} {a : α} (h : fitting v = .ok a) :
    v = .ok a := by
  cases v with
  | ok b => rw [Except.ok.inj h]
  | error m => exact absurd h (by simp [fitting])

theorem isTexts_addLibrary {b b' : Bundle} {l : Library} (hl : l.HasTextRanges) (hb : b.IsTexts)
    (h : addLibrary b l = .ok b') : b'.IsTexts := by
  rw [addLibrary] at h
  simp only [except_bind_eq_ok] at h
  obtain ⟨dev, hd, runtime, hr, names, hn, h⟩ := h
  have hreq := requirement_isText (hl.dev dev (fitting_ok hd)) (hl.runtime runtime (fitting_ok hr))
  exact foldlM_ok_inv (fun name hm _ _ hb h =>
    isTexts_add hb (hl.bundled names (fitting_ok hn) name hm) (hreq name) h) hb h

/-- The bundle of libraries with texts for names and ranges. -/
theorem isTexts_collect {libraries : List Library} (hl : ∀ l ∈ libraries, l.HasTextRanges)
    {b : Bundle} (h : collect libraries = .ok b) : b.IsTexts :=
  foldlM_ok_inv (fun l hm _ _ hb h => isTexts_addLibrary (hl l hm) hb h) isTexts_nil h

end Bundle

end UberPackage
