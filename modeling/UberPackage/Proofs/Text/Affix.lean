/-
  What texts begin and end with.

  `Text.after?` and `Text.before?` take a beginning or an ending away (`Text.after?_eq_some`,
  `Text.before?_eq_some`).  A text is cut in one way into what stands before a line feed at its very
  end and that line feed, if there is one (`Text.Cut.append_inj`).
-/
import UberPackage.Text

namespace UberPackage.Text

/-! ## Beginnings -/

theorem after?_eq_some {start t rest : Text} : after? start t = some rest ↔ start ++ rest = t := by
  unfold after?
  constructor
  · intro h
    split at h
    · next hp =>
      obtain ⟨u, rfl⟩ := List.isPrefixOf_iff_prefix.mp hp
      rw [List.drop_left] at h
      rw [Option.some.inj h]
    · exact absurd h (by simp)
  · rintro rfl
    rw [if_pos (List.isPrefixOf_iff_prefix.mpr (List.prefix_append start rest)), List.drop_left]

theorem after?_append (start t : Text) : after? start (start ++ t) = some t :=
  after?_eq_some.mpr rfl

/-- Two beginnings, one after the other. -/
theorem after?_start_append (u v t : Text) : after? (u ++ v) t = (after? u t).bind (after? v) := by
  ext rest
  simp only [Option.bind_eq_some_iff, after?_eq_some]
  constructor
  · rintro rfl
    exact ⟨v ++ rest, (List.append_assoc u v rest).symm, rfl⟩
  · rintro ⟨w, rfl, rfl⟩
    exact List.append_assoc u v rest

/-! ## Endings -/

theorem before?_eq_some {ending t start : Text} (h : before? ending t = some start) :
    t = start ++ ending := by
  rw [before?] at h
  split at h
  · next hs =>
    obtain ⟨u, rfl⟩ := List.isSuffixOf_iff_suffix.mp hs
    rw [List.length_append, Nat.add_sub_cancel, List.take_left] at h
    rw [Option.some.inj h]
  · exact absurd h (by simp)

theorem before?_eq_none {ending t : Text} (h : before? ending t = none) : ¬ ending <:+ t := by
  rw [before?] at h
  split at h
  · cases h
  · next hs => exact fun he => hs (List.isSuffixOf_iff_suffix.mpr he)

/-- An ending is looked for in front of what both end with. -/
theorem before?_append (ending t u : Text) : before? (ending ++ u) (t ++ u) = before? ending t := by
  have hiff : (ending ++ u).isSuffixOf (t ++ u) = ending.isSuffixOf t := by
    rw [Bool.eq_iff_iff, List.isSuffixOf_iff_suffix, List.isSuffixOf_iff_suffix]
    constructor
    · rintro ⟨w, hw⟩
      rw [← List.append_assoc] at hw
      exact ⟨w, List.append_cancel_right hw⟩
    · rintro ⟨w, rfl⟩
      exact ⟨w, (List.append_assoc _ _ _).symm⟩
  rw [before?, before?, hiff, List.length_append, List.length_append, Nat.add_sub_add_right,
    List.take_append_of_le_length (Nat.sub_le _ _)]

theorem before?_nil (t : Text) : before? [] t = some t := by
  rw [before?, if_pos (List.isSuffixOf_iff_suffix.mpr List.nil_suffix),
    List.length_nil, Nat.sub_zero,
    List.take_length]

theorem before?_ending (t ending : Text) : before? ending (t ++ ending) = some t := by
  rw [← before?_nil t, ← before?_append [] t ending, List.nil_append]

/-- Texts that end differently are different. -/
theorem append_ne_append {t u a b : Text} (k : Nat) (ha : k < a.length) (hb : k < b.length)
    (h : a.reverse[k]? ≠ b.reverse[k]?) : t ++ a ≠ u ++ b := by
  intro he
  have hk : (t ++ a).reverse[k]? = (u ++ b).reverse[k]? := by rw [he]
  rw [List.reverse_append, List.reverse_append,
    List.getElem?_append_left (by rwa [List.length_reverse]),
    List.getElem?_append_left (by rwa [List.length_reverse])] at hk
  exact h hk

/-! ## A line feed at the end -/

/-- There is a last unit, and it is no line feed. -/
def EndsInLine (t : Text) : Prop := t.getLast?.any (· ≠ .char '\n') = true

instance (t : Text) : Decidable t.EndsInLine := inferInstanceAs (Decidable (_ = true))

theorem endsInLine_iff {t : Text} : t.EndsInLine ↔ ∃ u c, t = u ++ [c] ∧ c ≠ .char '\n' := by
  rw [EndsInLine, Option.any_eq_true]
  constructor
  · rintro ⟨c, hc, hne⟩
    obtain ⟨u, rfl⟩ := List.getLast?_eq_some_iff.mp hc
    exact ⟨u, c, rfl, of_decide_eq_true hne⟩
  · rintro ⟨u, c, rfl, hne⟩
    exact ⟨c, List.getLast?_concat, decide_eq_true hne⟩

theorem EndsInLine.append_left {t : Text} (h : t.EndsInLine) (u : Text) : (u ++ t).EndsInLine := by
  obtain ⟨v, c, rfl, hne⟩ := endsInLine_iff.mp h
  exact endsInLine_iff.mpr ⟨u ++ v, c, (List.append_assoc u v [c]).symm, hne⟩

theorem EndsInLine.ne_nil {t : Text} (h : t.EndsInLine) : t ≠ [] := by
  rintro rfl
  cases h

/-- A text that ends within a line is no other text with a line feed behind it. -/
theorem EndsInLine.ne_line {t : Text} (h : t.EndsInLine) (u : Text) : t ≠ u ++ "\n" := by
  obtain ⟨v, c, rfl, hne⟩ := endsInLine_iff.mp h
  intro he
  exact hne (List.cons.inj (List.append_inj' he rfl).2).1

/-- Nothing, or a line feed: what can stand behind the last line of a text. -/
def isEnd (rest : Text) : Bool := rest = [] ∨ rest = "\n"

theorem isEnd_iff {rest : Text} : rest.isEnd = true ↔ rest = [] ∨ rest = "\n" := by
  rw [isEnd, decide_eq_true_iff]

/-- The second part is the line feed at the end of a text, if there is one, and the first all
before. -/
def Cut (t rest : Text) : Prop := rest = "\n" ∨ rest = [] ∧ ∀ u : Text, t ≠ u ++ "\n"

theorem Cut.isEnd {t rest : Text} (h : Cut t rest) : rest.isEnd = true :=
  isEnd_iff.mpr (h.elim Or.inr fun h => Or.inl h.1)

theorem EndsInLine.cut {t rest : Text} (h : t.EndsInLine)
    (hrest : rest.isEnd = true) : Cut t rest :=
  (isEnd_iff.mp hrest).elim (fun he => Or.inr ⟨he, h.ne_line⟩) Or.inl

/-- A text is cut in one way. -/
theorem Cut.append_inj {t rest u rest' : Text} (h : Cut t rest) (h' : Cut u rest')
    (he : t ++ rest = u ++ rest') : t = u ∧ rest = rest' := by
  rcases h with rfl | ⟨rfl, h⟩ <;> rcases h' with rfl | ⟨rfl, h'⟩
  · exact ⟨List.append_cancel_right he, rfl⟩
  · rw [List.append_nil] at he
    exact absurd he.symm (h' t)
  · rw [List.append_nil] at he
    exact absurd he (h u)
  · exact ⟨List.append_cancel_right he, rfl⟩

end UberPackage.Text
