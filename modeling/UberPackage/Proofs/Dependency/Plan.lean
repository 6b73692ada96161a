/-
  Surveys and the plans made of them.

  A survey without a fault has made every check, and finds exactly what the checks find
  (`Survey.fault_eq_none_iff`, `Survey.mem_found`).  The checks of documents are taken apart by
  `Finding.forall_mem_checks`.

  Over documents whose names are texts, the corrections that findings call for are corrections
  over texts (`ManifestCorrections.ofFindings_eq_ofTexts`).
-/
import UberPackage.Dependency.Plan
import UberPackage.Proofs.Dependency.Bundle
import UberPackage.Proofs.Dependency.Correction

namespace UberPackage

/-! ## Surveys -/

namespace Survey

theorem fault_eq_none_iff {cs : List Check} :
    (run cs).fault = none ↔ ∀ c ∈ cs, ∃ f, c = .ok f := by
  induction cs with
  | nil => simp [run]
  | cons c cs ih =>
    match c with
    | .error m => simp [run]
    | .ok none => simp [run, ih]
    | .ok (some f) => simp [run, ih]

theorem mem_found {cs : List Check} (h : (run cs).fault = none) {f : Finding} :
    f ∈ (run cs).found ↔ .ok (some f) ∈ cs := by
  induction cs with
  | nil => simp [run]
  | cons c cs ih =>
    match c, h with
    | .ok none, h => simpa [run] using ih h
    | .ok (some g), h => simp [run, ih h]

/-- Checks that find nothing. -/
theorem run_of_silent {cs : List Check} (h : ∀ c ∈ cs, c = .ok none) : run cs = ⟨[], none⟩ := by
  induction cs with
  | nil => rfl
  | cons c cs ih =>
    rw [h c List.mem_cons_self, run]
    exact ih fun c' hm => h c' (List.mem_cons_of_mem _ hm)

end Survey

/-! ## Checks -/

namespace Finding

section Checks

variable {libraries : List Library} {u : Fields} {workspace : Json} {bundle : Bundle}

/-- Something holds of all checks if it holds of each kind of them. -/
theorem forall_mem_checks {P : Check → Prop} {entries names : List Json}
    (he : nohoist workspace = .ok entries) (hn : bundledNames u = .ok names) :
    (∀ c ∈ checks libraries u workspace bundle, P c) ↔
      (∀ l ∈ libraries, P (checkVersion (Json.orElse (u.get? "devDependencies") (.obj [])) l)) ∧
      P (.ok none) ∧
      (∀ e ∈ bundle, P (checkNohoist entries (nohoistEntry (Manifest.mk u).name e.1)) ∧
        P (checkBundled names e.1 e.2) ∧
        P (checkRange (Json.orElse (u.get? "dependencies") (.obj [])) e.1 e.2)) ∧
      P (checkNames names) ∧ ∀ name ∈ names, P (checkRequired bundle name) := by
  simp only [checks, he, hn, Survey.readable, Survey.valueOf, Except.toOption, Option.getD_some,
    Except.map, List.mem_append, List.mem_cons, List.mem_map, List.mem_flatMap, List.not_mem_nil,
    or_false, or_self]
  constructor
  · intro h
    refine ⟨fun l hl => h _ (Or.inl (Or.inl (Or.inl ⟨l, hl, rfl⟩))), ?_,
      fun e hm => ⟨?_, ?_, ?_⟩, ?_,
      fun name hm => h _ (Or.inr (Or.inr ⟨name, hm, rfl⟩))⟩
    · exact h _ (Or.inl (Or.inl (Or.inr rfl)))
    · exact h _ (Or.inl (Or.inr ⟨e, hm, Or.inl rfl⟩))
    · exact h _ (Or.inl (Or.inr ⟨e, hm, Or.inr (Or.inl rfl)⟩))
    · exact h _ (Or.inl (Or.inr ⟨e, hm, Or.inr (Or.inr rfl)⟩))
    · exact h _ (Or.inr (Or.inl rfl))
  · rintro ⟨hv, hr, hb, hk, hq⟩ c
      (((⟨l, hl, rfl⟩ | rfl) | ⟨e, hm, rfl | rfl | rfl⟩) | (rfl | ⟨name, hm, rfl⟩))
    · exact hv l hl
    · exact hr
    · exact (hb e hm).1
    · exact (hb e hm).2.1
    · exact (hb e hm).2.2
    · exact hk
    · exact hq name hm

end Checks

/-- The name that a finding is about is a text. -/
def namesText : Finding → Bool
  | unbundled name _ | wrongRange name _ | spurious name => name.isText
  | _ => true

end Finding

/-! ## Corrections for findings -/

theorem Json.exists_map_str (vs : List Json) (h : ∀ v ∈ vs, v.isText = true) :
    ∃ ts : List Text, vs = ts.map str :=
  ⟨vs.filterMap text?, (map_str_filterMap_text? (List.all_eq_true.mpr h)).symm⟩

/-- Corrections for findings about texts are corrections over texts. -/
theorem ManifestCorrections.ofFindings_eq_ofTexts {fs : List Finding}
    (h : ∀ f ∈ fs, f.namesText = true) :
    ∃ (versions : Fields) (additions : List Text) (ranges : Fields) (spurious : List Text),
      fs.filterMap Finding.version? = Mapping.ofFields versions ∧
      fs.filterMap Finding.addition? = additions.map Json.str ∧
      fs.filterMap Finding.range? = Mapping.ofFields ranges ∧
      fs.filterMap Finding.spurious? = spurious.map Json.str ∧
      ofFindings fs =
        ofTexts (Fields.update [] versions) additions (Fields.update [] ranges) spurious := by
  obtain ⟨versions, hv⟩ := Mapping.exists_ofFields (m := fs.filterMap Finding.version?) <| by
    intro e he
    obtain ⟨f, _, hf⟩ := List.mem_filterMap.mp he
    cases f <;> simp only [Finding.version?, Option.some.injEq, reduceCtorEq] at hf
    all_goals rw [← hf]; rfl
  obtain ⟨additions, ha⟩ := Json.exists_map_str (fs.filterMap Finding.addition?) <| by
    intro v hv
    obtain ⟨f, hm, hf⟩ := List.mem_filterMap.mp hv
    have hn := h f hm
    cases f <;> simp only [Finding.addition?, Option.some.injEq, reduceCtorEq] at hf
    rw [← hf]; exact hn
  obtain ⟨ranges, hr⟩ := Mapping.exists_ofFields (m := fs.filterMap Finding.range?) <| by
    intro e he
    obtain ⟨f, hm, hf⟩ := List.mem_filterMap.mp he
    have hn := h f hm
    cases f <;> simp only [Finding.range?, Option.some.injEq, reduceCtorEq] at hf
    rw [← hf]; exact hn
  obtain ⟨spurious, hs⟩ := Json.exists_map_str (fs.filterMap Finding.spurious?) <| by
    intro v hv
    obtain ⟨f, hm, hf⟩ := List.mem_filterMap.mp hv
    have hn := h f hm
    cases f <;> simp only [Finding.spurious?, Option.some.injEq, reduceCtorEq] at hf
    rw [← hf]; exact hn
  refine ⟨versions, additions, ranges, spurious, hv, ha, hr, hs, ?_⟩
  rw [ofFindings, hv, ha, hr, hs, ofTexts, ← Mapping.ofFields_nil, Mapping.update_ofFields,
    Mapping.update_ofFields]

/-! ## Plans -/

namespace Plan

/-- A plan that is made comes from a survey without a fault. -/
theorem make_eq_ok {libraries : List Library} {u : Fields} {workspace : Json} {p : Plan} :
    (make libraries (.obj u) workspace).2 = .ok p ↔
      ∃ bundle, Bundle.collect libraries = .ok bundle ∧
        (Survey.run (Finding.checks libraries u workspace bundle)).fault = none ∧
        p = ofFindings bundle (Survey.run (Finding.checks libraries u workspace bundle)).found := by
  rw [make]
  cases hc : Bundle.collect libraries with
  | error e => simp
  | ok bundle =>
    have hs : survey libraries (.obj u) workspace bundle =
        Survey.run (Finding.checks libraries u workspace bundle) := rfl
    simp only [hs, Except.ok.injEq, exists_eq_left']
    cases hf : (Survey.run (Finding.checks libraries u workspace bundle)).fault with
    | none => simp [eq_comm]
    | some m => simp

end Plan

end UberPackage
