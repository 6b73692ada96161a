/-
  Generated files and their sources.

  The name of a source is that of the generated file with another ending
  (`Suffix.sourceCounterpart?_eq_some`), and no longer; so it is a file name again.

  The entry module of a package is told by the name of the types alone, and the file that they point
  to is one of the files that the module can have, or the declarations of a directory
  (`Suffix.PointsTo.cases`).
-/
import UberPackage.Suffix
import UberPackage.Proofs.Disk.Length
import UberPackage.Proofs.Text.Affix

namespace UberPackage

namespace Suffix

theorem splitLineFeed_cut {t lf : Text} (h : t.Cut lf) : splitLineFeed (t ++ lf) = (t, lf) := by
  unfold splitLineFeed
  rcases h with rfl | ⟨rfl, h⟩
  · rw [Text.before?_ending]
  · rw [List.append_nil]
    cases hb : Text.before? "\n" t with
    | none => rfl
    | some u => exact absurd (Text.before?_eq_some hb) (h u)

theorem splitLineFeed_source (stem : Text) :
    splitLineFeed (stem ++ ".ts") = (stem ++ ".ts", []) := by
  have hline : Text.EndsInLine (stem ++ ".ts") := Text.EndsInLine.append_left (by decide) stem
  rw [← splitLineFeed_cut (hline.cut rfl), List.append_nil]

/-- Declarations are made from the source beside them. -/
theorem sourceCounterpart?_declarations (stem : Text) :
    sourceCounterpart? (stem ++ ".d.ts") = some (stem ++ ".ts") := by
  have hsplit : stem ++ ".d.ts" = stem ++ ".d" ++ ".ts" := (List.append_assoc stem ".d" ".ts").symm
  have hfirst : beforeFirst? generatedEndings (stem ++ ".d.ts") = some stem := by
    simp only [beforeFirst?, generatedEndings, List.findSome?, Text.before?_ending]
  rw [sourceCounterpart?, hsplit, splitLineFeed_source, ← hsplit]
  dsimp only
  rw [hfirst]
  exact congrArg some (List.append_nil _)

theorem sourceCounterpart?_eq_some {n c : Text} (h : sourceCounterpart? n = some c) :
    ∃ start ending lineFeed, ending ∈ generatedEndings ∧ n = start ++ ending ++ lineFeed ∧
      c = start ++ source ++ lineFeed := by
  rw [sourceCounterpart?] at h
  obtain ⟨start, hstart, rfl⟩ := Option.map_eq_some_iff.mp h
  rw [beforeFirst?] at hstart
  obtain ⟨ending, he, hb⟩ := List.exists_of_findSome?_eq_some hstart
  refine ⟨start, ending, (splitLineFeed n).2, he, ?_, rfl⟩
  rw [← Text.before?_eq_some hb, splitLineFeed]
  split
  · next body hbody => exact Text.before?_eq_some hbody
  · exact (List.append_nil n).symm

theorem size_source_le {ending : Text} (h : ending ∈ generatedEndings) :
    ending.nameSize?.isSome = true ∧ (source.nameSize?).getD 0 ≤ (ending.nameSize?).getD 0 := by
  rcases List.mem_pair.mp h with rfl | rfl <;> decide

/-- The counterpart of a file name is a file name. -/
theorem isFileName_sourceCounterpart? {n c : Text} (hn : n.IsFileName)
    (h : sourceCounterpart? n = some c) : c.IsFileName := by
  obtain ⟨start, ending, lf, he, rfl, rfl⟩ := sourceCounterpart?_eq_some h
  have hmem : ∀ x ∈ start ++ source ++ lf, x ∈ start ++ ending ++ lf ∨ x ∈ source := by
    intro x hx
    rcases List.mem_append.mp hx with hx | hx
    · rcases List.mem_append.mp hx with hx | hx
      · exact Or.inl (List.mem_append_left _ (List.mem_append_left _ hx))
      · exact Or.inr hx
    · exact Or.inl (List.mem_append_right _ hx)
  have hlen : ∀ t : Text, t.length < 3 → start ++ source ++ lf ≠ t := by
    rintro t ht rfl
    rw [List.length_append, List.length_append, show source.length = 3 from rfl] at ht
    omega
  have hstart : start.nameSize?.isSome = true := Text.isSome_nameSize?.mpr fun x hx =>
    (hn.units x (List.mem_append_left _ (List.mem_append_left _ hx))).1
  have hlf : lf.nameSize?.isSome = true := Text.isSome_nameSize?.mpr fun x hx =>
    (hn.units x (List.mem_append_right _ hx)).1
  have hparts : ∀ t : Text, t.nameSize?.isSome = true → ((start ++ t ++ lf).nameSize?).getD 0 =
      (start.nameSize?).getD 0 + (t.nameSize?).getD 0 + (lf.nameSize?).getD 0 := by
    intro t ht
    have hst : (start ++ t).nameSize?.isSome = true := Text.isSome_nameSize?.mpr fun x hx => by
      rcases List.mem_append.mp hx with hx | hx
      · exact Text.isSome_nameSize?.mp hstart x hx
      · exact Text.isSome_nameSize?.mp ht x hx
    rw [Text.nameSize?_getD_append hst hlf, Text.nameSize?_getD_append hstart ht]
  exact {
    ne_nil := hlen _ (by decide)
    ne_dot := hlen _ (by decide)
    ne_dots := hlen _ (by decide)
    no_slash := fun hs => (hmem _ hs).elim hn.no_slash (by decide)
    units := fun x hx => (hmem x hx).elim (hn.units x) fun hx => by
      have hall : ∀ x ∈ source, x.nameSize?.isSome = true ∧ x ≠ .char '\x00' := by decide
      exact hall x hx
    size_le := by
      have hsize := hn.size_le
      have hle := size_source_le he
      rw [hparts _ hle.1] at hsize
      rw [hparts _ (by decide)]
      omega }

/-! ## Entry modules -/

/-- The module of a file of types, and how much of the file's name it leaves out. -/
theorem entryModule_cases (stem : Text) :
    stem = entryModule (stem ++ ".ts") ++ "/index.d" ∨
      stem = entryModule (stem ++ ".ts") ++ "/index" ∨
      (stem = entryModule (stem ++ ".ts") ++ ".d" ∧ ¬ "/index.d" <:+ stem) ∨
      (stem = entryModule (stem ++ ".ts") ∧ ¬ ".d" <:+ stem ∧ ¬ "/index" <:+ stem) := by
  have hfirst : beforeFirst? entryEndings (stem ++ ".ts") =
      beforeFirst? ["/index.d", "/index", ".d", ""] stem := by
    have hstep : ∀ ending : Text, Text.before? (ending ++ ".ts") (stem ++ ".ts") =
        Text.before? ending stem :=
      fun ending => Text.before?_append ending stem ".ts"
    simp only [beforeFirst?, List.findSome?, ← hstep]
    rfl
  have hmodule : ∀ module : Text, beforeFirst? ["/index.d", "/index", ".d", ""] stem = some module →
      entryModule (stem ++ ".ts") = module := by
    intro module h
    rw [entryModule, splitLineFeed_source]
    dsimp only
    rw [hfirst, h]
    exact List.append_nil _
  cases h₁ : Text.before? "/index.d" stem with
  | some module =>
    rw [hmodule module (by simp only [beforeFirst?, List.findSome?, h₁])]
    exact Or.inl (Text.before?_eq_some h₁)
  | none =>
    refine Or.inr ?_
    cases h₂ : Text.before? "/index" stem with
    | some module =>
      rw [hmodule module (by simp only [beforeFirst?, List.findSome?, h₁, h₂])]
      exact Or.inl (Text.before?_eq_some h₂)
    | none =>
      refine Or.inr ?_
      cases h₃ : Text.before? ".d" stem with
      | some module =>
        rw [hmodule module (by simp only [beforeFirst?, List.findSome?, h₁, h₂, h₃])]
        exact Or.inl ⟨Text.before?_eq_some h₃, Text.before?_eq_none h₁⟩
      | none =>
        have hall : Text.before? "" stem = some stem := Text.before?_nil stem
        rw [hmodule stem (by simp only [beforeFirst?, List.findSome?, h₁, h₂, h₃, hall])]
        exact Or.inr ⟨rfl, Text.before?_eq_none h₃, Text.before?_eq_none h₂⟩

/-- The types are declared by a file: they name it, or the declaration file that is made from it. -/
def PointsTo (types file : Text) : Prop :=
  isSource types = true ∧ file = types ∨ ∃ stem, types = stem ++ ".d.ts" ∧ file = stem ++ ".ts"

/-- The types name the index of a directory. -/
def NamesIndex (types stem : Text) : Prop :=
  types = stem ++ "/index.ts" ∨ types = stem ++ "/index.d.ts"

theorem PointsTo.exists_stem {types file : Text} (h : PointsTo types file) :
    ∃ stem, file = stem ++ ".ts" := by
  rcases h with ⟨hsource, rfl⟩ | ⟨stem, -, rfl⟩
  · obtain ⟨stem, hstem⟩ := List.isSuffixOf_iff_suffix.mp hsource
    exact ⟨stem, hstem.symm⟩
  · exact ⟨stem, rfl⟩

theorem NamesIndex.unique {types stem stem' : Text} (h : NamesIndex types stem)
    (h' : NamesIndex types stem') : stem = stem' := by
  have hne : ∀ t u : Text, t ++ "/index.ts" ≠ u ++ "/index.d.ts" := fun t u =>
    Text.append_ne_append 3 (by decide) (by decide) (by decide)
  rcases h with rfl | rfl <;> rcases h' with h' | h'
  · exact List.append_cancel_right h'
  · exact absurd h' (hne _ _)
  · exact absurd h'.symm (hne _ _)
  · exact List.append_cancel_right h'

/-- What the entry module leaves out, seen from the file that the types point to. -/
theorem PointsTo.cases {types file : Text} (h : PointsTo types file) :
    (file = entryModule types ++ "/index.d.ts" ∧ types = file) ∨
      (file = entryModule types ++ "/index.ts" ∧ NamesIndex types (entryModule types)) ∨
      (file = entryModule types ++ ".d.ts" ∧ types = file ∧ ∀ stem, ¬ NamesIndex types stem) ∨
      (file = entryModule types ++ ".ts" ∧ (types = file → ∀ stem, file ≠ stem ++ ".d.ts") ∧
        ∀ stem, ¬ NamesIndex types stem) := by
  have hassoc : ∀ t u v : Text, t ++ (u ++ v) = t ++ u ++ v :=
    fun t u v => (List.append_assoc t u v).symm
  have hindex : ∀ t : Text, t ++ "/index.ts" = t ++ "/index" ++ ".ts" :=
    fun t => hassoc t "/index" ".ts"
  have hindex' : ∀ t : Text, t ++ "/index.d.ts" = t ++ "/index.d" ++ ".ts" :=
    fun t => hassoc t "/index.d" ".ts"
  have hdeclaration : ∀ t : Text, t ++ ".d.ts" = t ++ ".d" ++ ".ts" := fun t => hassoc t ".d" ".ts"
  obtain ⟨stem, rfl⟩ : ∃ stem, types = stem ++ ".ts" := by
    rcases h with ⟨hsource, -⟩ | ⟨stem, rfl, -⟩
    · obtain ⟨stem, hstem⟩ := List.isSuffixOf_iff_suffix.mp hsource
      exact ⟨stem, hstem.symm⟩
    · exact ⟨stem ++ ".d", hdeclaration stem⟩
  replace h : file = stem ++ ".ts" ∨ ∃ v, stem = v ++ ".d" ∧ file = v ++ ".ts" := by
    refine h.imp And.right fun ⟨v, hv, hf⟩ => ⟨v, ?_, hf⟩
    rw [hdeclaration] at hv
    exact List.append_cancel_right hv
  have hnames :
      ∀ v, NamesIndex (stem ++ ".ts") v → stem = v ++ "/index" ∨ stem = v ++ "/index.d" := by
    intro v hv
    rw [NamesIndex, hindex, hindex'] at hv
    exact hv.imp List.append_cancel_right List.append_cancel_right
  have hcases := entryModule_cases stem
  generalize entryModule (stem ++ ".ts") = module at hcases ⊢
  have hends : ∀ v : Text, v ++ ".d" ≠ module ++ "/index" := fun v =>
    Text.append_ne_append 0 (by decide) (by decide) (by decide)
  rcases hcases with rfl | rfl | ⟨rfl, hno⟩ | ⟨rfl, hno, hno'⟩
  · rcases h with rfl | ⟨v, hv, rfl⟩
    · exact Or.inl ⟨(hindex' module).symm, rfl⟩
    · refine Or.inr (Or.inl ⟨?_, Or.inr (hindex' module).symm⟩)
      rw [show module ++ "/index.d" = module ++ "/index" ++
        ".d" from hassoc module "/index" ".d"] at hv
      rw [hindex, List.append_cancel_right hv]
  · rcases h with rfl | ⟨v, hv, rfl⟩
    · exact Or.inr (Or.inl ⟨(hindex module).symm, Or.inl (hindex module).symm⟩)
    · exact absurd hv.symm (hends v)
  · have hnone : ∀ v, ¬ NamesIndex (module ++ ".d" ++ ".ts") v := fun v hv => by
      rcases hnames v hv with he | he
      · exact Text.append_ne_append 0 (by decide) (by decide) (by decide) he
      · exact hno ⟨v, he.symm⟩
    rcases h with rfl | ⟨v, hv, rfl⟩
    · exact Or.inr (Or.inr (Or.inl ⟨(hdeclaration module).symm, rfl, hnone⟩))
    · obtain rfl := List.append_cancel_right hv
      refine Or.inr (Or.inr (Or.inr ⟨rfl, fun he => ?_, hnone⟩))
      exact absurd (List.append_right_eq_self.mp (List.append_cancel_right he)) (by decide)
  · have hnone : ∀ v, ¬ NamesIndex (stem ++ ".ts") v := fun v hv => by
      rcases hnames v hv with he | he
      · exact hno' ⟨v, he.symm⟩
      · exact hno ⟨v ++ "/index", by rw [he]; exact (hassoc v "/index" ".d").symm⟩
    rcases h with rfl | ⟨v, hv, rfl⟩
    · refine Or.inr (Or.inr (Or.inr ⟨rfl, fun _ v hv => ?_, hnone⟩))
      rw [hdeclaration] at hv
      exact hno ⟨v, (List.append_cancel_right hv).symm⟩
    · exact absurd ⟨v, hv.symm⟩ hno

end Suffix

end UberPackage
