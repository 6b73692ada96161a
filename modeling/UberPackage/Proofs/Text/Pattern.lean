/-
  Patterns that stand at the end of a text.

  A `Pattern` is matched as a search with alternatives does it: `Pattern.rests` has what each way of
  matching leaves over, the preferred way first, and the first way that gets to the end of the text
  is taken (`Pattern.atEnd?`).  `Pattern.replace` goes through a text from left to right and
  replaces what is matched.

  A pattern without repetition is the list of its words (`Pattern.rests_eq`), so only one of them
  can be replaced, and it is the longest that the text ends with: a longer one is met earlier
  (`Pattern.replace_ending`, `Pattern.replace_eq_self`).
-/
import Mathlib.Data.List.Infix
import UberPackage.Proofs.Text.Affix

namespace UberPackage

/-- A pattern for a piece of text. -/
inductive Pattern where
  /-- These units. -/
  | text (t : Text)
  /-- One pattern after the other. -/
  | sequence (p q : Pattern)
  /-- The pattern, or else nothing. -/
  | maybe (p : Pattern)
  /-- One pattern, or else the other. -/
  | either (p q : Pattern)

namespace Pattern

/-- What a match at the start of a text leaves over, for each way to match, the preferred way
first. -/
def rests : Pattern → Text → List Text
  | text t, s => (Text.after? t s).toList
  | sequence p q, s => (p.rests s).flatMap q.rests
  | maybe p, s => p.rests s ++ [s]
  | either p q, s => p.rests s ++ q.rests s

/-- The texts that a pattern matches, the preferred one first. -/
def words : Pattern → List Text
  | text t => [t]
  | sequence p q => p.words.flatMap fun u => q.words.map (u ++ ·)
  | maybe p => p.words ++ [[]]
  | either p q => p.words ++ q.words

theorem rests_eq (p : Pattern) (s : Text) : p.rests s = p.words.filterMap (Text.after? · s) := by
  induction p generalizing s with
  | text t =>
    simp only [rests, words, List.filterMap_cons, List.filterMap_nil]
    cases Text.after? t s <;> rfl
  | sequence p q hp hq =>
    simp only [rests, words, hp, List.filterMap_flatMap, List.filterMap_map, Function.comp_def,
      Text.after?_start_append]
    induction p.words with
    | nil => rfl
    | cons u us ih =>
      rw [List.flatMap_cons, ← ih, List.filterMap_cons]
      cases h : Text.after? u s with
      | none => simp
      | some rest => simp [hq]
  | maybe p hp =>
    simp only [rests, words, hp, List.filterMap_append, List.filterMap_cons, List.filterMap_nil]
    rw [show Text.after? [] s = some s from Text.after?_eq_some.mpr rfl]
  | either p q hp hq => simp only [rests, words, hp, hq, List.filterMap_append]

/-- What the first match that gets to the end of the text leaves over. -/
def atEnd? (p : Pattern) (s : Text) : Option Text := (p.rests s).find? Text.isEnd

/-- The text with what is matched replaced, from left to right; a match of nothing does not
count. -/
def replace (p : Pattern) (replacement : Text) : Text → Text
  | [] => []
  | c :: s =>
    match p.atEnd? (c :: s) with
    | some rest =>
      if rest.length ≤ s.length then replacement ++ replace p replacement rest
      else c :: replace p replacement s
    | none => c :: replace p replacement s
termination_by s => s.length
decreasing_by
  · rw [List.length_cons]; omega
  · rw [List.length_cons]; omega
  · rw [List.length_cons]; omega

/-- The pattern is matched somewhere in a text. -/
def occursIn (p : Pattern) (s : Text) : Bool := s.tails.any fun u => (p.atEnd? u).isSome

/-- Each word ends within a line. -/
def Solid (p : Pattern) : Prop := ∀ w ∈ p.words, w.EndsInLine

instance (p : Pattern) : Decidable p.Solid := inferInstanceAs (Decidable (∀ w ∈ p.words, _))

/-! ## What is matched -/

variable {p : Pattern} {w rest s : Text}

theorem exists_of_atEnd? (h : p.atEnd? s = some rest) :
    ∃ w ∈ p.words, s = w ++ rest ∧ rest.isEnd = true := by
  have hmem := List.mem_of_find?_eq_some h
  rw [rests_eq, List.mem_filterMap] at hmem
  obtain ⟨w, hw, hafter⟩ := hmem
  exact ⟨w, hw, (Text.after?_eq_some.mp hafter).symm, List.find?_some h⟩

theorem atEnd?_of_word (hp : p.Solid) (hw : w ∈ p.words) (hrest : rest.isEnd = true) :
    p.atEnd? (w ++ rest) = some rest := by
  have hmem : rest ∈ p.rests (w ++ rest) := by
    rw [rests_eq]
    exact List.mem_filterMap.mpr ⟨w, hw, Text.after?_eq_some.mpr rfl⟩
  cases h : p.atEnd? (w ++ rest) with
  | none => exact absurd hrest (List.find?_eq_none.mp h rest hmem)
  | some rest' =>
    obtain ⟨w', hw', he, hrest'⟩ := exists_of_atEnd? h
    rw [(((hp w hw).cut hrest).append_inj ((hp w' hw').cut hrest') he).2]

/-- Nothing is matched where no word stands at the end of the text. -/
theorem atEnd?_eq_none (h : ∀ w ∈ p.words, ∀ rest, rest.isEnd = true → s ≠ w ++ rest) :
    p.atEnd? s = none := by
  cases hs : p.atEnd? s with
  | none => rfl
  | some rest =>
    obtain ⟨w, hw, he, hrest⟩ := exists_of_atEnd? hs
    exact absurd he (h w hw rest hrest)

/-- Where nothing is matched, a unit stays. -/
theorem replace_cons {c : Code} (r : Text) (h : p.atEnd? (c :: s) = none) :
    p.replace r (c :: s) = c :: p.replace r s := by
  rw [replace, h]

theorem replace_end (hp : p.Solid) (r : Text) (hrest : rest.isEnd = true) :
    p.replace r rest = rest := by
  rcases Text.isEnd_iff.mp hrest with rfl | rfl
  · rw [replace]
  · have hnone : p.atEnd? [.char '\n'] = none := atEnd?_eq_none fun w hw rest' hrest' he => by
      rcases Text.isEnd_iff.mp hrest' with rfl | rfl
      · rw [List.append_nil] at he
        exact (hp w hw).ne_line [] he.symm
      · exact (hp w hw).ne_nil (List.append_left_eq_self.mp he.symm)
    exact (replace_cons r hnone).trans (by rw [replace]; rfl)

/-! ## Endings -/

/-- **The longest word that a text ends with is replaced**, and nothing before it; a line feed at
the very end stays. -/
theorem replace_ending (hp : p.Solid) (r stem : Text) (hw : w ∈ p.words) (hrest : rest.isEnd = true)
    (hlongest : ∀ v ∈ p.words, v <:+ stem ++ w → v.length ≤ w.length) :
    p.replace r (stem ++ w ++ rest) = stem ++ r ++ rest := by
  induction stem with
  | nil =>
    obtain ⟨c, u, rfl⟩ := List.exists_cons_of_ne_nil (hp w hw).ne_nil
    have hmatch : p.atEnd? (c :: (u ++ rest)) = some rest := atEnd?_of_word hp hw hrest
    have hlen : rest.length ≤ (u ++ rest).length := by
      rw [List.length_append]
      omega
    rw [List.nil_append, List.nil_append, List.cons_append, replace, hmatch]
    dsimp only
    rw [if_pos hlen, replace_end hp r hrest]
  | cons c stem ih =>
    -- a match at `c` would be a longer word at the same end
    have hnone :
        p.atEnd? (c :: (stem ++ w ++ rest)) = none := atEnd?_eq_none fun v hv rest' hrest' he => by
      have hcut := ((hp w hw).append_left (c :: stem)).cut hrest
      obtain ⟨rfl, -⟩ := hcut.append_inj ((hp v hv).cut hrest') he
      have hle := hlongest _ hv (List.suffix_refl _)
      rw [List.length_append, List.length_cons] at hle
      omega
    have hrec := ih fun v hv hsuffix => hlongest v hv (hsuffix.trans (List.suffix_cons c _))
    exact (replace_cons r hnone).trans (congrArg (c :: ·) hrec)

/-- A text that ends with no word stays as it is. -/
theorem replace_eq_self (hp : p.Solid) (r : Text) {t : Text} (hcut : t.Cut rest)
    (hnone : ∀ w ∈ p.words, ¬ w <:+ t) : p.replace r (t ++ rest) = t ++ rest := by
  induction t with
  | nil => exact replace_end hp r hcut.isEnd
  | cons c t ih =>
    have hmatch :
        p.atEnd? (c :: (t ++ rest)) = none := atEnd?_eq_none fun w hw rest' hrest' he => by
      obtain ⟨rfl, -⟩ := hcut.append_inj ((hp w hw).cut hrest') he
      exact hnone _ hw (List.suffix_refl _)
    have hcut' : Text.Cut t rest :=
      hcut.imp_right fun h => ⟨h.1, fun u he => h.2 (c :: u) (congrArg (c :: ·) he)⟩
    have hrec := ih hcut' fun w hw hsuffix => hnone w hw (hsuffix.trans (List.suffix_cons c t))
    exact (replace_cons r hmatch).trans (congrArg (c :: ·) hrec)

/-- A match is found exactly in a text that ends with a word. -/
theorem occursIn_iff (hp : p.Solid) {t : Text} (hcut : t.Cut rest) :
    p.occursIn (t ++ rest) = true ↔ ∃ w ∈ p.words, w <:+ t := by
  rw [occursIn, List.any_eq_true]
  constructor
  · rintro ⟨u, hu, hmatch⟩
    obtain ⟨x, hx⟩ := (List.mem_tails _ _).mp hu
    obtain ⟨rest', hmatch⟩ := Option.isSome_iff_exists.mp hmatch
    obtain ⟨w, hw, rfl, hrest'⟩ := exists_of_atEnd? hmatch
    have he : t ++ rest = x ++ w ++ rest' := by rw [← hx, List.append_assoc]
    have hcut' := ((hp w hw).append_left x).cut hrest'
    exact ⟨w, hw, x, (hcut.append_inj hcut' he).1.symm⟩
  · rintro ⟨w, hw, x, rfl⟩
    refine ⟨w ++ rest, (List.mem_tails _ _).mpr ⟨x, (List.append_assoc x w rest).symm⟩, ?_⟩
    rw [atEnd?_of_word hp hw hcut.isEnd, Option.isSome_some]

end Pattern

end UberPackage
