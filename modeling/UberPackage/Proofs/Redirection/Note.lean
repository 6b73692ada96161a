/-
  The note on a redirection.

  A note is a line comment where nothing but blanks is left of the line, and a block comment
  elsewhere (`Redirection.note_eq`).  It holds the old literal as it stands: a line end in the
  literal is one in the line comment, and a `*/` in it is one in the block comment.
-/
import UberPackage.Proofs.Redirection.Exact
import UberPackage.Proofs.TypeScript.Comment

namespace UberPackage

open TypeScript

namespace Redirection

/-! ## The rest of a line -/

/-- A blank of one byte. -/
def isSpace (c : Char) : Bool := c == ' ' || (9 ≤ c.toNat && c.toNat ≤ 13)

/-- Nothing but blanks stands before the next line feed. -/
def isBlankRest : List Char → Bool
  | [] => true
  | c :: cs => c == '\n' || (isSpace c && isBlankRest cs)

theorem toNat_ofNat {c : Char} (h : c.toNat < 128) : (UInt8.ofNat c.toNat).toNat = c.toNat :=
  UInt8.toNat_ofNat'.trans (Nat.mod_eq_of_lt (by omega))

/-- Bytes of their own are as blank as their characters. -/
theorem isBlank_ofNat {c : Char} (h : c.toNat < 128) :
    isBlank (UInt8.ofNat c.toNat) = isSpace c := by
  rw [Bool.eq_iff_iff]
  simp only [isBlank, isSpace, Bool.or_eq_true, Bool.and_eq_true, beq_iff_eq, decide_eq_true_eq,
    ← UInt8.toNat_inj, UInt8.le_iff_toNat_le, toNat_ofNat h, ← Char.toNat_inj]
  rfl

theorem ofNat_bne_feed {c : Char} (h : c.toNat < 128) :
    (UInt8.ofNat c.toNat != 0x0A) = (c != '\n') := by
  rw [Bool.eq_iff_iff, bne_iff_ne, bne_iff_ne, ne_eq, ne_eq, ← UInt8.toNat_inj, toNat_ofNat h,
    ← Char.toNat_inj]
  rfl

/-- A byte of a longer character is neither a line feed nor blank. -/
theorem not_isBlank_of_le {b : UInt8} (h : 128 ≤ b.toNat) :
    (b != 0x0A) = true ∧ isBlank b = false := by
  have hne : ∀ n : UInt8, n.toNat < 128 → b ≠ n := by
    rintro n hn rfl
    omega
  refine ⟨bne_iff_ne.mpr (hne _ (by decide)), ?_⟩
  rw [isBlank, Bool.or_eq_false_iff, Bool.and_eq_false_iff]
  refine ⟨beq_eq_false_iff_ne.mpr (hne _ (by decide)), Or.inr (decide_eq_false fun hle => ?_)⟩
  have hnat : b.toNat ≤ 13 := UInt8.le_iff_toNat_le.mp hle
  omega

/-- Nor is a longer character. -/
theorem not_isSpace_of_le {c : Char} (h : 128 ≤ c.toNat) :
    (c == '\n') = false ∧ isSpace c = false := by
  have hne : ∀ d : Char, d.toNat < 128 → c ≠ d := by
    rintro d hd rfl
    omega
  refine ⟨beq_eq_false_iff_ne.mpr (hne _ (by decide)), ?_⟩
  rw [isSpace, Bool.or_eq_false_iff, Bool.and_eq_false_iff]
  exact ⟨beq_eq_false_iff_ne.mpr (hne _ (by decide)), Or.inr (decide_eq_false (by omega))⟩

/-- The bytes up to the line feed are blank when the characters are. -/
theorem all_isBlank_takeWhile (cs : List Char) :
    ((Utf8.encode cs).takeWhile (· != 0x0A)).all isBlank = isBlankRest cs := by
  induction cs with
  | nil => rfl
  | cons c cs ih =>
    have hbytes : Utf8.encode (c :: cs) = String.utf8EncodeChar c ++ Utf8.encode cs :=
      List.flatMap_cons
    rw [hbytes, isBlankRest]
    rcases Utf8.encodeChar_cases c with ⟨hlt, he⟩ | ⟨hge, hb⟩
    · rw [he, List.singleton_append, List.takeWhile_cons, ofNat_bne_feed hlt, bne]
      cases c == '\n' with
      | true => rfl
      | false =>
        rw [Bool.not_false, if_pos rfl, List.all_cons, isBlank_ofNat hlt, ih, Bool.false_or]
    · obtain ⟨b, bs, hbs⟩ := List.exists_cons_of_ne_nil (String.utf8EncodeChar_ne_nil (c := c))
      obtain ⟨hfeed, hblank⟩ := not_isBlank_of_le (hb b (hbs ▸ List.mem_cons_self))
      rw [hbs, List.cons_append, List.takeWhile_cons, if_pos hfeed, List.all_cons, hblank,
        Bool.false_and]
      rw [(not_isSpace_of_le hge).1, (not_isSpace_of_le hge).2]
      rfl

theorem all_isBlank_restOfLine (xs ys : List Char) :
    (restOfLine (Utf8.encode (xs ++ ys)) (Utf8.size xs)).all isBlank = isBlankRest ys := by
  rw [restOfLine, Utf8.drop_encode, all_isBlank_takeWhile]

/-! ## The two forms of a note -/

/-- What a note says of a literal. -/
def remark (literal : List Char) : List Char := ' ' :: (noteText.toChars ++ ' ' :: literal)

/-- A note that reaches to the end of its line. -/
def lineNote (literal : List Char) : List Char := ' ' :: '/' :: '/' :: remark literal

/-- What stands before the end of a note that is closed. -/
def blockBody (literal : List Char) : List Char := ' ' :: '/' :: '*' :: (remark literal ++ [' '])

theorem ofChars_noteText : Text.ofChars noteText.toChars = noteText := by decide +kernel

theorem star_not_mem_noteText : '*' ∉ noteText.toChars := by decide +kernel

theorem note_eq (literal xs ys : List Char) :
    (note (Text.ofChars literal) (Utf8.encode (xs ++ ys)) (Utf8.size xs)).toChars =
      if isBlankRest ys then lineNote literal else blockBody literal ++ Scanner.closing := by
  have hline : (" // " : Text) = Text.ofChars [' ', '/', '/', ' '] := by decide
  have hblock : (" /* " : Text) = Text.ofChars [' ', '/', '*', ' '] := by decide
  have hend : (" */" : Text) = Text.ofChars (' ' :: Scanner.closing) := by decide
  have hblank : (" " : Text) = Text.ofChars [' '] := by decide
  rw [note, all_isBlank_restOfLine, hline, hblock, hend, hblank, ← ofChars_noteText]
  by_cases hrest : isBlankRest ys = true
  · rw [if_pos hrest, if_pos hrest]
    simp only [← Text.ofChars_append, Text.toChars_ofChars, lineNote, remark, List.append_assoc,
      List.cons_append, List.nil_append]
  · rw [if_neg hrest, if_neg hrest]
    simp only [← Text.ofChars_append, Text.toChars_ofChars, blockBody, remark, List.append_assoc,
      List.cons_append, List.nil_append]

theorem all_not_isLineEnd_noteText :
    (noteText.toChars.all fun c => !isLineEnd c) = true := by decide +kernel

/-- A remark has the line ends of its literal. -/
theorem exists_isLineEnd_remark (literal : List Char) :
    (∃ c ∈ remark literal, isLineEnd c = true) ↔ ∃ c ∈ literal, isLineEnd c = true := by
  constructor
  · rintro ⟨c, hc, hend⟩
    rw [remark, List.mem_cons, List.mem_append, List.mem_cons] at hc
    rcases hc with rfl | hc | rfl | hc
    · exact absurd hend (by decide)
    · have hplain := List.all_eq_true.mp all_not_isLineEnd_noteText c hc
      rw [hend] at hplain
      cases hplain
    · exact absurd hend (by decide)
    · exact ⟨c, hc, hend⟩
  · rintro ⟨c, hc, hend⟩
    exact ⟨c, List.mem_cons_of_mem _ (List.mem_append_right _ (List.mem_cons_of_mem _ hc)), hend⟩

theorem exists_isLineEnd_lineNote (literal : List Char) :
    (∃ c ∈ lineNote literal, isLineEnd c = true) ↔ ∃ c ∈ literal, isLineEnd c = true := by
  rw [← exists_isLineEnd_remark literal]
  simp [lineNote, isLineEnd]

theorem exists_isLineEnd_blockNote (literal : List Char) :
    (∃ c ∈ blockBody literal ++ Scanner.closing, isLineEnd c = true) ↔
      ∃ c ∈ literal, isLineEnd c = true := by
  rw [← exists_isLineEnd_remark literal]
  simp [blockBody, isLineEnd, Scanner.closing, or_and_right, exists_or]

/-- A mark that a character is not part of stands on one side of it. -/
theorem infix_append_cons_iff {α : Type} {mark xs ys : List α} {c : α} (hc : c ∉ mark) :
    mark <:+: xs ++ c :: ys ↔ mark <:+: xs ∨ mark <:+: ys := by
  rw [List.infix_append_iff, List.infix_cons_iff]
  constructor
  · rintro (h | (h | h) | ⟨l, r, rfl, hl, hr⟩)
    · exact Or.inl h
    · rcases List.prefix_cons_iff.mp h with rfl | ⟨t, rfl, -⟩
      · exact Or.inl List.nil_infix
      · exact absurd List.mem_cons_self hc
    · exact Or.inr h
    · rcases List.prefix_cons_iff.mp hr with rfl | ⟨t, rfl, -⟩
      · rw [List.append_nil]
        exact Or.inl hl.isInfix
      · exact absurd (List.mem_append_right _ List.mem_cons_self) hc
  · rintro (h | h)
    · exact Or.inl h
    · exact Or.inr (Or.inl (Or.inr h))

theorem closing_infix_blockBody (literal : List Char) :
    Scanner.closing <:+: blockBody literal ↔ Scanner.closing <:+: literal := by
  have hblank : ' ' ∉ Scanner.closing := by decide
  have hopen : ¬ Scanner.closing <:+: [' ', '/', '*'] := by decide
  have hend : ¬ Scanner.closing <:+: [] := by decide
  have htext : ¬ Scanner.closing <:+: noteText.toChars := fun h =>
    star_not_mem_noteText (h.subset List.mem_cons_self)
  have hsplit : blockBody literal =
      [' ', '/', '*'] ++ ' ' :: (noteText.toChars ++ ' ' :: (literal ++ ' ' :: [])) := by
    simp only [blockBody, remark, List.append_assoc, List.cons_append, List.nil_append]
  rw [hsplit, infix_append_cons_iff hblank, infix_append_cons_iff hblank,
    infix_append_cons_iff hblank,
    or_iff_right hopen, or_iff_right htext, or_iff_left hend]

end Redirection

end UberPackage
