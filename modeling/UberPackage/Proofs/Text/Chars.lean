/-
  Text of characters alone.

  A text without unpaired halves is a list of characters (`Text.IsChars`).  It has bytes, and its
  bytes have its characters again (`Utf8.decode?_encode`).
-/
import UberPackage.Text.Utf8

namespace UberPackage

namespace Utf8

theorem decode?_encode (cs : List Char) : decode? (encode cs) = some cs := by
  have hbytes : (ByteArray.mk (encode cs).toArray) = cs.utf8Encode := by
    refine ByteArray.ext ?_
    rw [List.utf8Encode, List.data_toByteArray, encode]
  rw [decode?, hbytes, List.utf8Decode?_utf8Encode]
  simp

theorem text?_encode (cs : List Char) : text? (encode cs) = some (Text.ofChars cs) := by
  rw [text?, decode?_encode, Option.map_some]

theorem encode?_ofChars (cs : List Char) : encode? (Text.ofChars cs) = some (encode cs) := by
  rw [encode?, Text.chars?_ofChars, Option.map_some]

end Utf8

namespace Text

/-- The characters of a text, without unpaired halves. -/
def toChars (t : Text) : List Char := t.filterMap Code.char?

theorem toChars_ofChars (cs : List Char) : toChars (ofChars cs) = cs := by
  induction cs with
  | nil => rfl
  | cons c cs ih => exact congrArg (c :: ·) ih

theorem ofChars_append (a b : List Char) : ofChars (a ++ b) = ofChars a ++ ofChars b :=
  List.map_append

theorem length_ofChars (cs : List Char) : (ofChars cs).length = cs.length := List.length_map _

theorem isEmpty_ofChars (cs : List Char) : (ofChars cs).isEmpty = decide (cs = []) := by
  cases cs <;> rfl

theorem chars?_eq_some {t : Text} {cs : List Char} : chars? t = some cs ↔ t = ofChars cs := by
  refine ⟨fun h => ?_, fun h => by rw [h, chars?_ofChars]⟩
  induction t generalizing cs with
  | nil => cases h; rfl
  | cons x t ih =>
    rw [chars?, List.mapM_cons] at h
    simp only [Option.bind_eq_bind, Option.bind_eq_some_iff] at h
    obtain ⟨c, hc, ds, hds, h⟩ := h
    cases h
    cases x with
    | half i => exact absurd hc (by simp [Code.char?])
    | char d =>
      cases hc
      rw [ih hds]
      rfl

/-- The text is a list of characters. -/
def IsChars (t : Text) : Prop := t.chars?.isSome = true

instance (t : Text) : Decidable t.IsChars := inferInstanceAs (Decidable (_ = true))

theorem isChars_iff {t : Text} : t.IsChars ↔ ∃ cs, t = ofChars cs := by
  rw [IsChars, Option.isSome_iff_exists]
  exact exists_congr fun cs => chars?_eq_some

theorem isChars_nil : IsChars [] := rfl

theorem isChars_cons {c : Code} {t : Text} :
    IsChars (c :: t) ↔ c.char?.isSome = true ∧ IsChars t := by
  rw [IsChars, IsChars, chars?, List.mapM_cons]
  cases c.char? with
  | none => simp
  | some x => cases h : t.mapM Code.char? <;> simp [chars?, h]

/-- No unit of the text is half of a pair. -/
theorem isChars_iff_forall {t : Text} : t.IsChars ↔ ∀ c ∈ t, c.char?.isSome = true := by
  induction t with
  | nil => exact iff_of_true isChars_nil fun _ hc => absurd hc List.not_mem_nil
  | cons c t ih => rw [isChars_cons, ih, List.forall_mem_cons]

theorem isChars_append {a b : Text} : IsChars (a ++ b) ↔ IsChars a ∧ IsChars b := by
  simp only [IsChars, chars?, List.mapM_append, Option.isSome_iff_exists, Option.bind_eq_bind]
  constructor
  · rintro ⟨cs, h⟩
    simp only [Option.bind_eq_some_iff] at h
    obtain ⟨x, hx, y, hy, -⟩ := h
    exact ⟨⟨x, hx⟩, y, hy⟩
  · rintro ⟨⟨x, hx⟩, y, hy⟩
    exact ⟨x ++ y, by simp [hx, hy]⟩

theorem isChars_ofChars (cs : List Char) : IsChars (ofChars cs) := isChars_iff.mpr ⟨cs, rfl⟩

theorem isChars_ofString (s : String) : IsChars (ofString s) := isChars_ofChars s.toList

theorem encode?_of_isChars {t : Text} (h : t.IsChars) :
    Utf8.encode? t = some (Utf8.encode t.toChars) := by
  obtain ⟨cs, rfl⟩ := isChars_iff.mp h
  rw [toChars_ofChars, Utf8.encode?_ofChars]

theorem encode?_of_not_isChars {t : Text} (h : ¬ t.IsChars) : Utf8.encode? t = none := by
  rw [IsChars, Bool.not_eq_true, Option.isSome_eq_false_iff, Option.isNone_iff_eq_none] at h
  rw [Utf8.encode?, h, Option.map_none]

end Text

end UberPackage
