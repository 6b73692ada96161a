/-
  The order of texts by code point.

  `Text.le` is a linear order: code points tell units apart (`Code.point_injective`), and texts
  are compared unit by unit.  `Text.sort` gives the texts of a list in ascending order.
-/
import UberPackage.Text

namespace UberPackage

namespace Code

theorem point_char_ne_half (c : Char) (h : Fin 2048) : (char c).point ≠ (half h).point := by
  have hc := c.valid
  have hh := h.isLt
  simp only [point, Char.toNat]
  rcases hc with hc | hc <;> omega

/-- Different units have different code points. -/
theorem point_injective {x y : Code} (h : x.point = y.point) : x = y := by
  cases x with
  | char c =>
    cases y with
    | char d => exact congrArg char (Char.toNat_inj.mp h)
    | half k => exact absurd h (point_char_ne_half c k)
  | half k =>
    cases y with
    | char d => exact absurd h.symm (point_char_ne_half d k)
    | half l =>
      simp only [point] at h
      exact congrArg half (Fin.ext (by omega))

end Code

namespace Text

theorem le_cons (x y : Code) (s t : Text) :
    le (x :: s) (y :: t) = true ↔ x.point < y.point ∨ (x = y ∧ le s t = true) := by
  simp [le]

theorem le_refl (t : Text) : le t t = true := by
  induction t with
  | nil => rfl
  | cons x t ih => exact (le_cons x x t t).mpr (Or.inr ⟨rfl, ih⟩)

theorem le_total (s t : Text) : (le s t || le t s) = true := by
  induction s generalizing t with
  | nil => rfl
  | cons x s ih =>
    cases t with
    | nil => rfl
    | cons y t =>
      rw [Bool.or_eq_true, le_cons, le_cons]
      rcases Nat.lt_trichotomy x.point y.point with h | h | h
      · exact Or.inl (Or.inl h)
      · have hxy := Code.point_injective h
        have := ih t
        rw [Bool.or_eq_true] at this
        rcases this with h' | h'
        · exact Or.inl (Or.inr ⟨hxy, h'⟩)
        · exact Or.inr (Or.inr ⟨hxy.symm, h'⟩)
      · exact Or.inr (Or.inl h)

theorem le_trans (s t u : Text) (h : le s t = true) (h' : le t u = true) : le s u = true := by
  induction s generalizing t u with
  | nil => rfl
  | cons x s ih =>
    cases t with
    | nil => exact absurd h (by simp [le])
    | cons y t =>
      cases u with
      | nil => exact absurd h' (by simp [le])
      | cons z u =>
        rw [le_cons] at h h' ⊢
        rcases h with h | ⟨rfl, h⟩
        · rcases h' with h' | ⟨rfl, _⟩
          · exact Or.inl (Nat.lt_trans h h')
          · exact Or.inl h
        · rcases h' with h' | ⟨rfl, h'⟩
          · exact Or.inl h'
          · exact Or.inr ⟨rfl, ih t u h h'⟩

theorem le_antisymm (s t : Text) (h : le s t = true) (h' : le t s = true) : s = t := by
  induction s generalizing t with
  | nil =>
    cases t with
    | nil => rfl
    | cons y t => exact absurd h' (by simp [le])
  | cons x s ih =>
    cases t with
    | nil => exact absurd h (by simp [le])
    | cons y t =>
      rw [le_cons] at h h'
      rcases h with h | ⟨rfl, h⟩
      · rcases h' with h' | ⟨rfl, _⟩ <;> omega
      · rcases h' with h' | ⟨_, h'⟩
        · omega
        · rw [ih t h h']

/-- Not strictly before is the same as after or equal. -/
theorem not_lt (s t : Text) : (!lt t s) = le s t := by
  unfold lt
  cases h : le s t with
  | true =>
    cases h' : le t s with
    | false => rfl
    | true => simp [le_antisymm s t h h']
  | false =>
    have ht := le_total s t
    rw [h, Bool.false_or] at ht
    have hne : t ≠ s := by
      rintro rfl
      rw [le_refl] at h
      exact absurd h (by decide)
    simp [ht, hne]

theorem sort_perm (ts : List Text) : (sort ts).Perm ts := List.mergeSort_perm _ _

theorem sort_of_sorted {ts : List Text} (h : ts.Pairwise fun s t => le s t = true) : sort ts = ts :=
  List.mergeSort_of_pairwise h

theorem mem_sort {t : Text} {ts : List Text} : t ∈ sort ts ↔ t ∈ ts := List.mem_mergeSort

theorem sorted_sort (ts : List Text) : (sort ts).Pairwise (fun s t => le s t = true) :=
  List.pairwise_mergeSort le_trans le_total ts

theorem sort_of_perm {ts us : List Text} (hperm : ts.Perm us)
    (h : us.Pairwise fun s t => le s t = true) : sort ts = us :=
  ((sort_perm ts).trans hperm).eq_of_pairwise (fun s t _ _ => le_antisymm s t) (sorted_sort ts) h

end Text

end UberPackage
