/-
  The longest ending.

  The endings of module files are those of two patterns (`Suffix.entryPattern`,
  `Suffix.generatedPattern`). An entry point's endings are listed from the longest to the shortest,
  so the first that a name has is the longest (`Suffix.beforeFirst?_longest`), which is what the
  pattern replaces.

  `Suffix.strips_longest_ending` says what the two rules make of any name.
-/
import UberPackage.Proofs.Suffix
import UberPackage.Proofs.Text.Pattern

namespace UberPackage.Suffix

/-- How an entry point ends: `(/index)?(\.d)?\.ts`. -/
def entryPattern : Pattern :=
  .sequence (.maybe (.text "/index")) (.sequence (.maybe (.text ".d")) (.text ".ts"))

/-- How a generated file ends: `\.(d\.ts|js)`. -/
def generatedPattern : Pattern := .sequence (.text ".") (.either (.text "d.ts") (.text "js"))

theorem words_entryPattern : entryPattern.words = entryEndings := by decide

theorem words_generatedPattern : generatedPattern.words = generatedEndings := by decide

theorem solid_entryPattern : entryPattern.Solid := by decide

theorem solid_generatedPattern : generatedPattern.Solid := by decide

/-- The text ends so, and not with a longer one of the endings. -/
def IsLongest (endings : List Text) (ending t : Text) : Prop :=
  ending ∈ endings ∧ ending <:+ t ∧ ∀ e ∈ endings, e <:+ t → e.length ≤ ending.length

variable {t lf : Text}

theorem exists_cut (s : Text) : ∃ t lf : Text, s = t ++ lf ∧ t.Cut lf := by
  cases hb : Text.before? "\n" s with
  | some u => exact ⟨u, "\n", Text.before?_eq_some hb, Or.inl rfl⟩
  | none =>
    refine ⟨s, [], (List.append_nil s).symm, Or.inr ⟨rfl, fun u hu => ?_⟩⟩
    exact Text.before?_eq_none hb ⟨u, hu.symm⟩

theorem beforeFirst?_eq_none {endings : List Text} :
    beforeFirst? endings t = none ↔ ∀ e ∈ endings, ¬ e <:+ t := by
  rw [beforeFirst?, List.findSome?_eq_none_iff]
  refine forall₂_congr fun e _ => ⟨Text.before?_eq_none, fun h => ?_⟩
  cases hb : Text.before? e t with
  | none => rfl
  | some stem => exact absurd ⟨stem, (Text.before?_eq_some hb).symm⟩ h

/-- Where longer endings come first, the first that a text has is the longest. -/
theorem beforeFirst?_longest {endings : List Text}
    (hsorted : endings.Pairwise fun a b => b.length ≤ a.length) {stem : Text}
    (h : beforeFirst? endings t = some stem) :
    ∃ ending, t = stem ++ ending ∧ IsLongest endings ending t := by
  induction endings with
  | nil => cases h
  | cons e es ih =>
    unfold beforeFirst? at h
    rw [List.findSome?_cons] at h
    cases hb : Text.before? e t with
    | some u =>
      rw [hb] at h
      obtain rfl := Option.some.inj h
      have ht := Text.before?_eq_some hb
      refine ⟨e, ht, List.mem_cons_self, ⟨u, ht.symm⟩, fun v hv _ => ?_⟩
      rcases List.mem_cons.mp hv with rfl | hv
      · exact Nat.le_refl _
      · exact List.rel_of_pairwise_cons hsorted hv
    | none =>
      rw [hb] at h
      obtain ⟨ending, ht, hmem, hsuffix, hle⟩ := ih hsorted.tail h
      refine ⟨ending, ht, List.mem_cons_of_mem e hmem, hsuffix, fun v hv hv' => ?_⟩
      rcases List.mem_cons.mp hv with rfl | hv
      · exact absurd hv' (Text.before?_eq_none hb)
      · exact hle v hv hv'

/-! ## The two rules -/

theorem entryModule_cut (h : t.Cut lf) :
    (∃ stem ending, IsLongest entryEndings ending t ∧ t = stem ++ ending ∧
      entryModule (t ++ lf) = stem ++ lf) ∨
      ((∀ e ∈ entryEndings, ¬ e <:+ t) ∧ entryModule (t ++ lf) = t ++ lf) := by
  have hmodule :
      entryModule (t ++ lf) = ((beforeFirst? entryEndings t).map (· ++ lf)).getD (t ++ lf) := by
    rw [entryModule, splitLineFeed_cut h]
    dsimp only
    cases beforeFirst? entryEndings t <;> rfl
  cases hb : beforeFirst? entryEndings t with
  | some stem =>
    obtain ⟨ending, ht, hlongest⟩ := beforeFirst?_longest (by decide) hb
    rw [hb] at hmodule
    exact Or.inl ⟨stem, ending, hlongest, ht, hmodule⟩
  | none =>
    rw [hb] at hmodule
    exact Or.inr ⟨beforeFirst?_eq_none.mp hb, hmodule⟩

theorem entryModule_eq_replace (h : t.Cut lf) :
    entryModule (t ++ lf) = entryPattern.replace [] (t ++ lf) := by
  rcases entryModule_cut h with ⟨stem, ending, ⟨hmem, -, hle⟩, rfl, hmodule⟩ | ⟨hnone, hmodule⟩
  · rw [← words_entryPattern] at hmem hle
    rw [hmodule, Pattern.replace_ending solid_entryPattern [] stem hmem h.isEnd hle,
      List.append_nil]
  · rw [← words_entryPattern] at hnone
    rw [hmodule, Pattern.replace_eq_self solid_entryPattern [] h hnone]

theorem sourceCounterpart?_cut (h : t.Cut lf) :
    sourceCounterpart? (t ++ lf) = (beforeFirst? generatedEndings t).map (· ++ source ++ lf) := by
  rw [sourceCounterpart?, splitLineFeed_cut h]

/-- A name does not end in both ways that generated files end. -/
theorem generated_unique {u v e e' : Text} (he : e ∈ generatedEndings) (he' : e' ∈ generatedEndings)
    (h : u ++ e = v ++ e') : u = v ∧ e = e' := by
  have hne : ∀ u v : Text, u ++ ".d.ts" ≠ v ++ ".js" := fun u v =>
    Text.append_ne_append 1 (by decide) (by decide) (by decide)
  rcases List.mem_pair.mp he with rfl | rfl <;> rcases List.mem_pair.mp he' with rfl | rfl
  · exact ⟨List.append_cancel_right h, rfl⟩
  · exact absurd h (hne u v)
  · exact absurd h.symm (hne v u)
  · exact ⟨List.append_cancel_right h, rfl⟩

theorem beforeFirst?_generated {stem : Text} :
    beforeFirst? generatedEndings t = some stem ↔ ∃ e ∈ generatedEndings, t = stem ++ e := by
  constructor
  · intro h
    obtain ⟨e, ht, hmem, -⟩ := beforeFirst?_longest (by decide) h
    exact ⟨e, hmem, ht⟩
  · rintro ⟨e, hmem, ht⟩
    cases hb : beforeFirst? generatedEndings t with
    | none => exact absurd ⟨stem, ht.symm⟩ (beforeFirst?_eq_none.mp hb e hmem)
    | some u =>
      obtain ⟨e', ht', hmem', -⟩ := beforeFirst?_longest (by decide) hb
      rw [(generated_unique hmem' hmem (ht'.symm.trans ht)).1]

theorem sourceCounterpart?_eq_replace (h : t.Cut lf) :
    sourceCounterpart? (t ++ lf) =
      if generatedPattern.occursIn (t ++ lf) then some (generatedPattern.replace source (t ++ lf))
      else none := by
  rw [sourceCounterpart?_cut h]
  have hoccurs := Pattern.occursIn_iff solid_generatedPattern h
  rw [words_generatedPattern] at hoccurs
  cases hb : beforeFirst? generatedEndings t with
  | some stem =>
    obtain ⟨e, ht, hmem, hsuffix, hle⟩ := beforeFirst?_longest (by decide) hb
    rw [if_pos (hoccurs.mpr ⟨e, hmem, hsuffix⟩)]
    rw [ht] at hle ⊢
    rw [← words_generatedPattern] at hmem hle
    rw [Pattern.replace_ending solid_generatedPattern source stem hmem h.isEnd hle]
    rfl
  | none =>
    rw [if_neg fun ho => ?_]
    · rfl
    · obtain ⟨e, hmem, hsuffix⟩ := hoccurs.mp ho
      exact beforeFirst?_eq_none.mp hb e hmem hsuffix

/-- **Exactly one longest ending is taken away.** Any name is a text `t` and the line feed at its
very end, if there is one.  The module of an entry point is the name without the longest of four
endings that `t` has, or the name itself, and that is what replacing `entryPattern` by nothing
gives.  The source of a generated file has `.ts` in place of the ending of `t`, there is none where
`t` has neither ending, and that is what looking for `generatedPattern` and replacing it gives.  All
that stands before the ending stays, and so does the line feed. -/
theorem strips_longest_ending (s : Text) :
    ∃ t lf : Text, s = t ++ lf ∧ (lf = "\n" ∨ lf = [] ∧ ∀ u : Text, t ≠ u ++ "\n") ∧
      ((∃ stem ending, IsLongest ["/index.d.ts", "/index.ts", ".d.ts", ".ts"] ending t ∧
          t = stem ++ ending ∧
          entryModule s = stem ++ lf) ∨
        ((∀ e ∈ (["/index.d.ts", "/index.ts", ".d.ts", ".ts"] : List Text), ¬ e <:+ t) ∧
          entryModule s = s)) ∧
      entryModule s = entryPattern.replace [] s ∧
      (sourceCounterpart? s = none ↔ ¬ (".d.ts" : Text) <:+ t ∧ ¬ (".js" : Text) <:+ t) ∧
      (∀ c, sourceCounterpart? s = some c ↔
        ∃ stem : Text, (t = stem ++ ".d.ts" ∨ t = stem ++ ".js") ∧ c = stem ++ ".ts" ++ lf) ∧
      sourceCounterpart? s =
        if generatedPattern.occursIn s then some (generatedPattern.replace ".ts" s) else none := by
  obtain ⟨t, lf, rfl, hcut⟩ := exists_cut s
  refine ⟨t, lf, rfl, hcut, entryModule_cut hcut, entryModule_eq_replace hcut, ?_, fun c => ?_,
    sourceCounterpart?_eq_replace hcut⟩
  · rw [sourceCounterpart?_cut hcut, Option.map_eq_none_iff, beforeFirst?_eq_none, generatedEndings,
      List.forall_mem_cons, List.forall_mem_singleton]
  · rw [sourceCounterpart?_cut hcut, Option.map_eq_some_iff]
    refine exists_congr fun stem => ?_
    rw [beforeFirst?_generated]
    have hpair :
        (∃ e ∈ generatedEndings, t = stem ++ e) ↔ t = stem ++ ".d.ts" ∨ t = stem ++ ".js" := by
      constructor
      · rintro ⟨e, he, rfl⟩
        rcases List.mem_pair.mp he with rfl | rfl
        · exact Or.inl rfl
        · exact Or.inr rfl
      · rintro (h | h)
        · exact ⟨".d.ts", List.mem_pair.mpr (Or.inl rfl), h⟩
        · exact ⟨".js", List.mem_pair.mpr (Or.inr rfl), h⟩
    rw [hpair]
    exact and_congr_right fun _ => eq_comm

example : entryModule "lib/index.ts/index.d.ts\n" = "lib/index.ts\n" := by decide

end UberPackage.Suffix
