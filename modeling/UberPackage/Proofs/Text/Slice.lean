/-
  Stretches of characters between byte offsets.

  Offsets count bytes, characters take one to four of them.  `Utf8.slice` cuts out the characters
  between two offsets; between boundaries of characters nothing is lost (`Utf8.exists_slice`), and
  the bytes of the stretch are the bytes between the offsets (`Utf8.bytes_slice`).
-/
import UberPackage.Text.Utf8

namespace UberPackage

namespace Utf8

/-- The characters before a byte offset. -/
def before : Nat → List Char → List Char
  | 0, _ => []
  | _, [] => []
  | k + 1, c :: cs => c :: before (k + 1 - c.utf8Size) cs

/-- The characters from a byte offset on. -/
def after : Nat → List Char → List Char
  | 0, cs => cs
  | _, [] => []
  | k + 1, c :: cs => after (k + 1 - c.utf8Size) cs

/-- The characters between two byte offsets. -/
def slice (cs : List Char) (start stop : Nat) : List Char := before (stop - start) (after start cs)

/-- No character reaches over the offset. -/
def IsBoundary (cs : List Char) (k : Nat) : Prop := ∃ a b, cs = a ++ b ∧ size a = k

/-! ## Sizes -/

theorem size_append (a b : List Char) : size (a ++ b) = size a + size b := by
  induction a with
  | nil => rw [List.nil_append, size, Nat.zero_add]
  | cons c a ih => rw [List.cons_append, size, size, ih, Nat.add_assoc]

theorem size_cons_pos (c : Char) (cs : List Char) : 0 < size (c :: cs) := by
  have := c.utf8Size_pos
  rw [size]
  omega

theorem size_eq_zero {cs : List Char} : size cs = 0 ↔ cs = [] := by
  cases cs with
  | nil => exact ⟨fun _ => rfl, fun _ => rfl⟩
  | cons c cs =>
    have := size_cons_pos c cs
    exact ⟨fun h => by omega, fun h => by cases h⟩

/-! ## Cutting -/

theorem before_size_append (a b : List Char) : before (size a) (a ++ b) = a := by
  induction a with
  | nil => cases b <;> rfl
  | cons c a ih =>
    have hc := c.utf8Size_pos
    obtain ⟨k, hk⟩ : ∃ k, size (c :: a) = k + 1 := ⟨size (c :: a) - 1, by rw [size]; omega⟩
    have hrest : k + 1 - c.utf8Size = size a := by rw [← hk, size]; omega
    rw [hk, List.cons_append, before, hrest, ih]

theorem before_append_after (k : Nat) (cs : List Char) : before k cs ++ after k cs = cs := by
  induction cs generalizing k with
  | nil => cases k <;> rfl
  | cons c cs ih =>
    cases k with
    | zero => rfl
    | succ k => exact congrArg (c :: ·) (ih (k + 1 - c.utf8Size))

theorem after_size_append (a b : List Char) : after (size a) (a ++ b) = b := by
  have h := before_append_after (size a) (a ++ b)
  rw [before_size_append] at h
  exact List.append_cancel_left h

/-- An offset is a boundary when the characters before it take up just as many bytes. -/
theorem isBoundary_of_size_before {k : Nat} {cs : List Char} (h : size (before k cs) = k) :
    IsBoundary cs k :=
  ⟨before k cs, after k cs, (before_append_after k cs).symm, h⟩

theorem slice_append (a b c : List Char) :
    slice (a ++ b ++ c) (size a) (size (a ++ b)) = b := by
  have hb : size (a ++ b) - size a = size b := by rw [size_append]; omega
  rw [slice, hb, List.append_assoc, after_size_append, before_size_append]

/-- Of two ways to part a text, the one with fewer bytes in front has a beginning of the other's
front. -/
theorem exists_append_of_size_le {a b c d : List Char} (h : a ++ b = c ++ d)
    (hs : size a ≤ size c) : ∃ m, c = a ++ m ∧ b = m ++ d := by
  rcases List.append_eq_append_iff.mp h with ⟨m, hc, hb⟩ | ⟨m, ha, hd⟩
  · exact ⟨m, hc, hb⟩
  · rw [ha, size_append] at hs
    have hm : m = [] := size_eq_zero.mp (by omega)
    rw [hm, List.append_nil] at ha
    rw [hm, List.nil_append] at hd
    exact ⟨[], by rw [ha, List.append_nil], by rw [hd, List.nil_append]⟩

/-- Between two boundaries stands the slice. -/
theorem exists_slice {cs : List Char} {i j : Nat} (hi : IsBoundary cs i) (hj : IsBoundary cs j)
    (h : i ≤ j) :
    ∃ a b, cs = a ++ slice cs i j ++ b ∧ size a = i ∧ size (a ++ slice cs i j) = j := by
  obtain ⟨a, b, rfl, rfl⟩ := hi
  obtain ⟨c, d, he, rfl⟩ := hj
  obtain ⟨m, rfl, rfl⟩ := exists_append_of_size_le he h
  have hm : slice (a ++ (m ++ d)) (size a) (size (a ++ m)) = m := by
    rw [← List.append_assoc, slice_append]
  refine ⟨a, d, ?_, rfl, ?_⟩
  · rw [hm, List.append_assoc]
  · rw [hm]

/-! ## Bytes -/

theorem take_encode (a b : List Char) : (encode (a ++ b)).take (size a) = encode a := by
  rw [encode_append, ← length_encode, List.take_left]

theorem drop_encode (a b : List Char) : (encode (a ++ b)).drop (size a) = encode b := by
  rw [encode_append, ← length_encode, List.drop_left]

/-- A character is a byte with the same number, or all its bytes have greater numbers than such
characters. -/
theorem encodeChar_cases (c : Char) :
    c.toNat < 128 ∧ String.utf8EncodeChar c = [UInt8.ofNat c.toNat] ∨
      128 ≤ c.toNat ∧ ∀ b ∈ String.utf8EncodeChar c, 128 ≤ b.toNat := by
  by_cases h : c.val.toNat ≤ 127
  · exact Or.inl ⟨Nat.lt_succ_of_le h, if_pos h⟩
  · refine Or.inr ⟨Nat.lt_of_not_le h, fun b hb => ?_⟩
    have hmod : ∀ n, (UInt8.ofNat n).toNat = n % 256 := fun _ => UInt8.toNat_ofNat'
    rw [String.utf8EncodeChar] at hb
    simp only [if_neg h] at hb
    split at hb
    · simp only [List.mem_cons, List.not_mem_nil, or_false] at hb
      rcases hb with rfl | rfl <;> rw [hmod] <;> omega
    · split at hb <;> simp only [List.mem_cons, List.not_mem_nil, or_false] at hb
      · rcases hb with rfl | rfl | rfl <;> rw [hmod] <;> omega
      · rcases hb with rfl | rfl | rfl | rfl <;> rw [hmod] <;> omega

/-- The bytes between two boundaries are those of the slice. -/
theorem bytes_slice {cs : List Char} {i j : Nat} (hi : IsBoundary cs i) (hj : IsBoundary cs j)
    (h : i ≤ j) : ((encode cs).take j).drop i = encode (slice cs i j) := by
  obtain ⟨a, b, hcs, ha, hb⟩ := exists_slice hi hj h
  generalize slice cs i j = m at hcs hb ⊢
  subst hcs
  rw [← hb, take_encode, ← ha, drop_encode]

end Utf8

end UberPackage
