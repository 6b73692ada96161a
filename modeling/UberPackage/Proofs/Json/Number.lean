/-
  Numbers read back.

  A decimal is digits, perhaps a point and digits, and perhaps an exponent (`Json.numberText`); what
  it reads as is told by its digits and its exponent (`readNumber?_numberText`).  Integers and
  floating-point numbers are written so that they read as themselves (`readScalar_int`,
  `readScalar_float`), unless what follows goes on with the number.
-/
import Mathlib.Tactic.IntervalCases
import UberPackage.Json.Reader
import UberPackage.Json.Writer
import UberPackage.Proofs.Number.Shortest
import UberPackage.Proofs.Text.Chars

namespace UberPackage

/-! ## Digits -/

namespace Decimal

/-- Characters that are digits. -/
def AreDigits (cs : List Char) : Prop := ∀ c ∈ cs, c.isDigit = true

theorem areDigits_toDigits (n : Nat) : AreDigits (Nat.toDigits 10 n) :=
  fun _ hc => Nat.isDigit_of_mem_toDigits (by decide) (by decide) hc

theorem AreDigits.append {cs ds : List Char} (h : AreDigits cs) (h' : AreDigits ds) :
    AreDigits (cs ++ ds) :=
  fun c hc => (List.mem_append.mp hc).elim (h c) (h' c)

theorem AreDigits.sublist {cs ds : List Char} (h : AreDigits ds) (hs : cs.Sublist ds) :
    AreDigits cs :=
  fun c hc => h c (hs.subset hc)

theorem areDigits_zeros (n : Nat) : AreDigits (List.replicate n '0') := fun c hc => by
  rw [List.eq_of_mem_replicate hc]
  rfl

/-- The first digit of a positive number is not zero. -/
theorem head_toDigits {n : Nat} (hn : 0 < n) : ∃ c cs, Nat.toDigits 10 n = c :: cs ∧ c ≠ '0' := by
  induction n using Nat.strongRecOn with
  | ind n ih =>
    rw [Nat.toDigits_eq_if (by decide)]
    split
    · next hlt =>
      refine ⟨n.digitChar, [], rfl, ?_⟩
      interval_cases n <;> decide
    · next hge =>
      obtain ⟨c, cs, hcs, hc⟩ := ih (n / 10) (by omega) (by omega)
      exact ⟨c, cs ++ [(n % 10).digitChar], by rw [hcs]; rfl, hc⟩

/-- Digits and the zeros cut off behind them. -/
theorem trimZeros_append (ds : List Char) : ∃ n, ds = trimZeros ds ++ List.replicate n '0' := by
  refine ⟨(ds.reverse.takeWhile (· == '0')).length, ?_⟩
  have hsplit :
      ds = (ds.reverse.takeWhile (· == '0') ++ ds.reverse.dropWhile (· == '0')).reverse := by
    rw [List.takeWhile_append_dropWhile, List.reverse_reverse]
  have hzeros : ds.reverse.takeWhile (· == '0') =
      List.replicate (ds.reverse.takeWhile (· == '0')).length '0' := by
    refine List.eq_replicate_of_mem fun c hc => ?_
    exact beq_iff_eq.mp (List.all_eq_true.mp List.all_takeWhile c hc)
  rw [List.reverse_append] at hsplit
  rw [trimZeros, ← List.reverse_replicate, ← hzeros]
  exact hsplit

end Decimal

namespace Json

open Decimal

theorem digitsValue_ofChars (cs : List Char) :
    digitsValue (Text.ofChars cs) = Nat.ofDigitChars 10 cs 0 := by
  rw [digitsValue, Text.ofChars, List.foldl_map, Nat.ofDigitChars_eq_foldl]
  rfl

/-- The text does not begin with a digit. -/
def NoDigit (t : Text) : Prop := ∀ c, t.head? = some c → isDigit c = false

/-- The text does not go on with a number. -/
structure Stops (t : Text) : Prop where
  noDigit : NoDigit t
  noPoint : t.head? ≠ some (.char '.')
  noExponent : t.head? ≠ some (.char 'e') ∧ t.head? ≠ some (.char 'E')

theorem takeWhile_digits {cs : List Char} (h : AreDigits cs) {rest : Text} (hr : NoDigit rest) :
    (Text.ofChars cs ++ rest).takeWhile isDigit = Text.ofChars cs := by
  rw [List.takeWhile_append_of_pos]
  · have hnil : rest.takeWhile isDigit = [] := by
      cases rest with
      | nil => rfl
      | cons c rest => rw [List.takeWhile_cons, hr c rfl]; rfl
    rw [hnil, List.append_nil]
  · intro c hc
    obtain ⟨d, hd, rfl⟩ := List.mem_map.mp hc
    exact h d hd

/-! ## The parts of a number -/

/-- Digits before a point; a zero in front stands alone. -/
structure IsWhole (cs : List Char) : Prop where
  digits : AreDigits cs
  ne_nil : cs ≠ []
  zero : cs.head? = some '0' → cs = ['0']

theorem wholeDigits_append {cs : List Char} (h : IsWhole cs) {rest : Text} (hr : NoDigit rest) :
    wholeDigits (Text.ofChars cs ++ rest) = Text.ofChars cs := by
  unfold wholeDigits
  split
  · next tail hc =>
    cases cs with
    | nil => exact absurd rfl h.ne_nil
    | cons c cs =>
      have hc0 : c = '0' := by
        have := (List.cons.inj hc).1
        simpa using this
      rw [h.zero (by rw [hc0]; rfl)]
      rfl
  · exact takeWhile_digits h.digits hr

/-- A point and digits, if there are any. -/
def pointText (fraction : List Char) : List Char :=
  if fraction = [] then [] else '.' :: fraction

/-- The digits of an exponent with a sign, if there are any. -/
def exponentText (negative : Bool) (digits : List Char) : List Char :=
  if digits = [] then [] else 'e' :: (if negative then '-' else '+') :: digits

/-- The exponent that digits with a sign give. -/
def exponentOf (negative : Bool) (digits : List Char) : Int :=
  if negative then -(Nat.ofDigitChars 10 digits 0 : Int) else Nat.ofDigitChars 10 digits 0

theorem fractionDigits_append {fraction : List Char} (h : AreDigits fraction) {rest : Text}
    (hd : NoDigit rest) (hp : rest.head? ≠ some (.char '.')) :
    fractionDigits (Text.ofChars (pointText fraction) ++ rest) = Text.ofChars fraction := by
  unfold pointText
  by_cases hf : fraction = []
  · rw [if_pos hf, hf]
    show fractionDigits rest = []
    unfold fractionDigits
    split
    · exact absurd rfl hp
    · rfl
  · rw [if_neg hf]
    exact takeWhile_digits h hd

theorem exponent?_append {negative : Bool} {digits : List Char} (h : AreDigits digits) {rest : Text}
    (hr : Stops rest) : exponent? (Text.ofChars (exponentText negative digits) ++ rest) =
      if digits = [] then none else some (exponentOf negative digits, rest) := by
  unfold exponentText
  by_cases hd : digits = []
  · rw [if_pos hd, if_pos hd]
    show exponent? rest = none
    unfold exponent?
    split
    · next e tail =>
      rw [if_neg]
      have he : e ≠ 'e' := fun h => hr.noExponent.1 (by rw [h]; rfl)
      have hE : e ≠ 'E' := fun h => hr.noExponent.2 (by rw [h]; rfl)
      simp [he, hE]
    · rfl
  · rw [if_neg hd, if_neg hd]
    have htake := takeWhile_digits h hr.noDigit
    have hne : (Text.ofChars digits).isEmpty = false := by
      rw [List.isEmpty_eq_false_iff]
      exact fun h => hd (List.map_eq_nil_iff.mp h)
    have hsign : takeExponentSign
        (.char (if negative then '-' else '+') :: (Text.ofChars digits ++ rest)) =
          (negative, Text.ofChars digits ++ rest) := by
      cases negative <;> rfl
    show exponent? (.char 'e' :: .char (if negative then '-' else '+') ::
      (Text.ofChars digits ++ rest)) = _
    generalize Code.char (if negative then '-' else '+') = sign at hsign ⊢
    have hmark : (decide ('e' = 'e') || decide ('e' = 'E')) = true := rfl
    unfold exponent?
    dsimp only
    rw [if_pos hmark, hsign, htake, hne, if_neg (by simp), List.drop_left, digitsValue_ofChars]
    rfl

/-- A minus sign before a negative number. -/
def signText (negative : Bool) : List Char := if negative then ['-'] else []

theorem takeSign_append {negative : Bool} {cs : List Char} (h : AreDigits cs) (hne : cs ≠ [])
    (rest : Text) : takeSign (Text.ofChars (signText negative ++ cs) ++ rest) =
      (negative, Text.ofChars cs ++ rest) := by
  cases negative with
  | true => rfl
  | false =>
    cases cs with
    | nil => exact absurd rfl hne
    | cons c cs =>
      have hc : c ≠ '-' := fun hc => by
        have := h c List.mem_cons_self
        rw [hc] at this
        exact absurd this (by decide)
      show takeSign (.char c :: (Text.ofChars cs ++ rest)) = _
      unfold takeSign
      split
      · next heq => exact absurd (Code.char.inj (List.cons.inj heq).1) hc
      · rfl

/-- The text of a number from its parts. -/
def numberText (negative : Bool) (whole fraction : List Char) (down : Bool) (digits : List Char) :
    List Char :=
  signText negative ++ whole ++ pointText fraction ++ exponentText down digits

theorem noDigit_exponentText {down : Bool} {digits : List Char} {rest : Text} (hr : Stops rest) :
    NoDigit (Text.ofChars (exponentText down digits) ++ rest) := by
  unfold exponentText
  split
  · exact hr.noDigit
  · exact fun c hc => by cases hc; rfl

theorem head?_exponentText_ne {down : Bool} {digits : List Char} {rest : Text} (hr : Stops rest) :
    (Text.ofChars (exponentText down digits) ++ rest).head? ≠ some (.char '.') := by
  unfold exponentText
  split
  · exact hr.noPoint
  · show some (Code.char 'e') ≠ some (.char '.')
    decide

theorem noDigit_pointText {fraction : List Char} {rest : Text} (hr : NoDigit rest) :
    NoDigit (Text.ofChars (pointText fraction) ++ rest) := by
  unfold pointText
  split
  · exact hr
  · exact fun c hc => by cases hc; rfl

/-- What is left when a point and its digits have been taken. -/
theorem drop_pointText (fraction : List Char) (rest : Text) :
    (if (Text.ofChars fraction).isEmpty then Text.ofChars (pointText fraction) ++ rest
      else (Text.ofChars (pointText fraction) ++ rest).drop ((Text.ofChars fraction).length + 1)) =
        rest := by
  rw [Text.isEmpty_ofChars]
  unfold pointText
  by_cases h : fraction = []
  · rw [if_pos (by simpa using h), if_pos h]
    rfl
  · rw [if_neg (by simpa using h), if_neg h]
    show (Text.ofChars fraction ++ rest).drop (Text.ofChars fraction).length = rest
    rw [List.drop_left]

/-- **What a number reads as** is told by its digits and its exponent. -/
theorem readNumber?_numberText {negative down : Bool} {whole fraction digits : List Char}
    {rest : Text} (hw : IsWhole whole) (hf : AreDigits fraction) (hd : AreDigits digits)
    (hr : Stops rest) :
    readNumber? (Text.ofChars (numberText negative whole fraction down digits) ++ rest) =
      some (if fraction = [] ∧ digits = [] then
        if whole.length > integerDigits then
          misread .longInteger
            (Text.ofChars (numberText negative whole fraction down digits) ++ rest)
        else .ok (.int (if negative then -(Nat.ofDigitChars 10 whole 0 : Int)
          else Nat.ofDigitChars 10 whole 0), rest)
      else .ok (.float (.ofDecimal negative (Nat.ofDigitChars 10 (whole ++ fraction) 0)
        ((if digits = [] then 0 else exponentOf down digits) - fraction.length)), rest)) := by
  obtain ⟨behind, hbehind⟩ : ∃ t, t = Text.ofChars (exponentText down digits) ++ rest := ⟨_, rfl⟩
  have hstop : NoDigit behind := hbehind ▸ noDigit_exponentText hr
  have hpoint : behind.head? ≠ some (.char '.') := hbehind ▸ head?_exponentText_ne hr
  have htext : Text.ofChars (numberText negative whole fraction down digits) ++ rest =
      Text.ofChars (signText negative ++ whole) ++
        (Text.ofChars (pointText fraction) ++ behind) := by
    rw [numberText, Text.ofChars_append, Text.ofChars_append, hbehind, List.append_assoc,
      List.append_assoc]
  unfold readNumber?
  rw [htext, takeSign_append hw.digits hw.ne_nil]
  dsimp only
  rw [wholeDigits_append hw (noDigit_pointText hstop), Text.isEmpty_ofChars,
    if_neg (by simpa using hw.ne_nil), List.drop_left, fractionDigits_append hf hstop hpoint,
    drop_pointText, hbehind, exponent?_append hd hr, Text.isEmpty_ofChars, ← Text.ofChars_append,
    digitsValue_ofChars, digitsValue_ofChars, Text.length_ofChars, Text.length_ofChars]
  by_cases hdn : digits = []
  · subst hdn
    by_cases hfn : fraction = []
    · subst hfn
      rfl
    · have hsome : ¬ (decide (fraction = []) && (none : Option (Int × Text)).isNone) = true := by
        simp [hfn]
      rw [if_pos rfl, if_neg hsome, if_neg fun h => hfn h.1, if_pos rfl]
      rfl
  · have hsome :
        ¬ (decide (fraction = []) && (some (exponentOf down digits, rest)).isNone) = true := by
      simp
    rw [if_neg hdn, if_neg hsome, if_neg fun h => hdn h.2, if_neg hdn]
    rfl

/-- A number is none of the words. -/
theorem find?_number {negative : Bool} {cs : List Char} (h : AreDigits cs) (hne : cs ≠ [])
    (rest : Text) : (literals.find? fun x =>
      x.1.isPrefixOf (Text.ofChars (signText negative ++ cs) ++ rest)) = none := by
  obtain ⟨c, ds, rfl⟩ := List.exists_cons_of_ne_nil hne
  have hc : c.isDigit = true := h c List.mem_cons_self
  have hother : ∀ a : Char, a.isDigit = false → (Code.char a == Code.char c) = false := by
    intro a ha
    rw [beq_eq_false_iff_ne]
    intro he
    rw [Code.char.inj he, hc] at ha
    exact absurd ha (by simp)
  have hbegins :
      ∀ (a b : Code) (s t : Text), (a == b) = false → (a :: s).isPrefixOf (b :: t) = false :=
    fun a b s t hab => by rw [List.isPrefixOf, hab, Bool.false_and]
  rw [List.find?_eq_none]
  intro x hx
  rw [Bool.not_eq_true]
  cases negative with
  | false =>
    rcases List.mem_cons.mp hx with rfl | hx
    · exact hbegins _ _ _ _ (hother 'n' rfl)
    rcases List.mem_cons.mp hx with rfl | hx
    · exact hbegins _ _ _ _ (hother 't' rfl)
    rcases List.mem_cons.mp hx with rfl | hx
    · exact hbegins _ _ _ _ (hother 'f' rfl)
    rcases List.mem_cons.mp hx with rfl | hx
    · exact hbegins _ _ _ _ (hother 'N' rfl)
    rcases List.mem_cons.mp hx with rfl | hx
    · exact hbegins _ _ _ _ (hother 'I' rfl)
    · rw [List.mem_singleton.mp hx]
      exact hbegins _ _ _ _ (hother '-' rfl)
  | true =>
    rcases List.mem_cons.mp hx with rfl | hx
    · rfl
    rcases List.mem_cons.mp hx with rfl | hx
    · rfl
    rcases List.mem_cons.mp hx with rfl | hx
    · rfl
    rcases List.mem_cons.mp hx with rfl | hx
    · rfl
    rcases List.mem_cons.mp hx with rfl | hx
    · rfl
    · rw [List.mem_singleton.mp hx]
      show (true && (Text.ofString "Infinity").isPrefixOf (Text.ofChars (c :: ds) ++ rest)) = false
      exact hbegins _ _ _ _ (hother 'I' rfl)

/-- A number in a text is read as a number. -/
theorem readScalar_numberText {negative down : Bool}
    {whole fraction digits : List Char} {rest : Text} (hw : IsWhole whole)
    {r : Except Misread (Json × Text)} (h : readNumber?
      (Text.ofChars (numberText negative whole fraction down digits) ++ rest) = some r) :
    readScalar (Text.ofChars (numberText negative whole fraction down digits) ++ rest) = r := by
  have htext : Text.ofChars (numberText negative whole fraction down digits) ++ rest =
      Text.ofChars (signText negative ++ whole) ++
        (Text.ofChars (pointText fraction ++ exponentText down digits) ++ rest) := by
    rw [numberText, ← List.append_assoc, ← Text.ofChars_append, List.append_assoc _ (pointText _) _]
  unfold readScalar
  rw [h, htext, find?_number hw.digits hw.ne_nil]

/-! ## Integers -/

theorem isWhole_toDigits (n : Nat) : IsWhole (Nat.toDigits 10 n) where
  digits := areDigits_toDigits n
  ne_nil := Nat.toDigits_ne_nil
  zero h := by
    rcases Nat.eq_zero_or_pos n with rfl | hn
    · exact Nat.toDigits_zero 10
    · obtain ⟨c, cs, hcs, hc⟩ := head_toDigits hn
      rw [hcs] at h
      exact absurd (Option.some.inj h) hc

/-- An integer is short enough to be read. -/
def IsShort (i : Int) : Prop := i.natAbs < 10 ^ integerDigits

theorem ofInt_eq (i : Int) : Text.ofInt i =
    Text.ofChars (numberText (decide (i < 0)) (Nat.toDigits 10 i.natAbs) [] false []) := by
  have hnat : ∀ n : Nat, Text.ofNat n = Text.ofChars (Nat.toDigits 10 n) := fun n => by
    rw [Text.ofNat, Text.ofString, Nat.toList_repr]
    rfl
  have htext : ∀ (b : Bool) (cs : List Char), numberText b cs [] false [] = signText b ++ cs :=
    fun b cs => by
      rw [numberText, show pointText [] = [] from rfl, show exponentText false [] = [] from rfl,
        List.append_nil, List.append_nil]
  rw [htext]
  cases i with
  | ofNat n => exact hnat n
  | negSucc n =>
    rw [show decide (Int.negSucc n < 0) = true from decide_eq_true (Int.negSucc_lt_zero n)]
    exact congrArg (Code.char '-' :: ·) (hnat (n + 1))

/-- **Integers are read as they were written.** -/
theorem readScalar_int {i : Int} (hi : IsShort i) {rest : Text} (hr : Stops rest) :
    readScalar (Text.ofInt i ++ rest) = .ok (.int i, rest) := by
  have hw := isWhole_toDigits i.natAbs
  have hnil : AreDigits [] := fun c hc => absurd hc List.not_mem_nil
  rw [ofInt_eq]
  refine readScalar_numberText hw ?_
  rw [readNumber?_numberText hw hnil hnil hr, if_pos ⟨rfl, rfl⟩, if_neg]
  · rw [Nat.ofDigitChars_ten_toDigits]
    have hsign : (if decide (i < 0) = true then -(i.natAbs : Int) else i.natAbs) = i := by
      by_cases h : i < 0
      · rw [if_pos (by simpa using h)]
        omega
      · rw [if_neg (by simpa using h)]
        omega
    rw [hsign]
  · rw [gt_iff_lt, Nat.not_lt, Nat.length_toDigits_le_iff (by decide) (by decide)]
    exact hi

/-! ## Floating-point numbers -/

/-- The parts of a number with a fraction or an exponent, and its value. -/
structure Spells (cs whole fraction : List Char) (down : Bool) (digits : List Char) (x : ℚ) :
    Prop where
  text : cs = whole ++ pointText fraction ++ exponentText down digits
  isWhole : IsWhole whole
  areFraction : AreDigits fraction
  areDigits : AreDigits digits
  float : ¬ (fraction = [] ∧ digits = [])
  value : (Nat.ofDigitChars 10 (whole ++ fraction) 0 : ℚ) *
    10 ^ ((if digits = [] then 0 else exponentOf down digits) - (fraction.length : Int)) = x

theorem isWhole_of_head {cs : List Char} (h : AreDigits cs) {c : Char} {ds : List Char}
    (hcs : cs = c :: ds) (hc : c ≠ '0') : IsWhole cs where
  digits := h
  ne_nil := by rw [hcs]; exact List.cons_ne_nil _ _
  zero h0 := by
    rw [hcs] at h0
    exact absurd (Option.some.inj h0) hc

/-- An exponent in two digits at least. -/
theorem exists_exponentDigits (e : Int) : ∃ digits : List Char, AreDigits digits ∧ digits ≠ [] ∧
    exponentOf (decide (e < 0)) digits = e ∧
    (if (Nat.toDigits 10 e.natAbs).length < 2 then '0' :: Nat.toDigits 10 e.natAbs
      else Nat.toDigits 10 e.natAbs) = digits := by
  have hvalue : ∀ digits : List Char, Nat.ofDigitChars 10 digits 0 = e.natAbs →
      exponentOf (decide (e < 0)) digits = e := by
    intro digits h
    unfold exponentOf
    rw [h]
    by_cases he : e < 0
    · rw [if_pos (by simpa using he)]
      omega
    · rw [if_neg (by simpa using he)]
      omega
  by_cases hlen : (Nat.toDigits 10 e.natAbs).length < 2
  · refine ⟨'0' :: Nat.toDigits 10 e.natAbs, ?_, List.cons_ne_nil _ _, hvalue _ ?_, if_pos hlen⟩
    · exact (areDigits_zeros 1).append (areDigits_toDigits _)
    · rw [Nat.ofDigitChars_cons]
      exact Nat.ofDigitChars_ten_toDigits
  · exact ⟨_, areDigits_toDigits _, Nat.toDigits_ne_nil, hvalue _ Nat.ofDigitChars_ten_toDigits,
      if_neg hlen⟩

/-! Digits are laid out around a point in four ways. -/

section Layout

variable {cs : List Char} (h : AreDigits cs) {c : Char} {ds : List Char} (hcs : cs = c :: ds)
  (hc : c ≠ '0')
include h hcs hc

theorem spells_exponent {e : Int} {digits : List Char} (hd : AreDigits digits) (hne : digits ≠ [])
    (hexp : exponentOf (decide (e < 0)) digits = e) :
    Spells (cs.take 1 ++ pointText (cs.drop 1) ++ exponentText (decide (e < 0)) digits) [c] ds
      (decide (e < 0)) digits (Nat.ofDigitChars 10 cs 0 * 10 ^ (e + 1 - (cs.length : Int))) where
  text := by rw [hcs]; rfl
  isWhole := isWhole_of_head (h.sublist (by rw [hcs]; simp)) rfl hc
  areFraction := h.sublist (by rw [hcs]; exact List.sublist_cons_self _ _)
  areDigits := hd
  float h := hne h.2
  value := by
    rw [if_neg hne, hexp, hcs, List.singleton_append, List.length_cons]
    congr 2
    push_cast
    ring

omit hc in
theorem spells_below_one (n : Nat) :
    Spells ('0' :: '.' :: List.replicate n '0' ++ cs) ['0'] (List.replicate n '0' ++ cs) false []
      (Nat.ofDigitChars 10 cs 0 * 10 ^ (-(n : Int) - (cs.length : Int))) where
  text := by
    unfold pointText exponentText
    rw [if_neg (by simp [hcs]), if_pos rfl, List.append_nil]
    rfl
  isWhole := ⟨areDigits_zeros 1, List.cons_ne_nil _ _, fun _ => rfl⟩
  areFraction := (areDigits_zeros n).append h
  areDigits _ hc := absurd hc List.not_mem_nil
  float := by simp [hcs]
  value := by
    rw [if_pos rfl, List.singleton_append, Nat.ofDigitChars_cons, Nat.ofDigitChars_append,
      Nat.ofDigitChars_replicate_zero, List.length_append, List.length_replicate]
    congr 2
    push_cast
    omega

theorem spells_whole (n : Nat) :
    Spells (cs ++ List.replicate n '0' ++ ['.', '0']) (cs ++ List.replicate n '0') ['0'] false []
      (Nat.ofDigitChars 10 cs 0 * 10 ^ (n : Int)) where
  text := by
    unfold pointText exponentText
    rw [if_neg (by simp), if_pos rfl, List.append_nil]
  isWhole := isWhole_of_head (h.append (areDigits_zeros n)) (by rw [hcs]; rfl) hc
  areFraction := areDigits_zeros 1
  areDigits _ hc := absurd hc List.not_mem_nil
  float := by simp
  value := by
    rw [if_pos rfl, List.append_assoc, Nat.ofDigitChars_append, ← List.replicate_succ',
      Nat.ofDigitChars_replicate_zero, zpow_natCast]
    push_cast
    rw [List.length_singleton, pow_succ, show (0 : Int) - (1 : Nat) = -1 from rfl, zpow_neg_one]
    field_simp

theorem spells_between {n : Nat} (hpos : 0 < n) (hlt : n < cs.length) :
    Spells (cs.take n ++ '.' :: cs.drop n) (cs.take n) (cs.drop n) false []
      (Nat.ofDigitChars 10 cs 0 * 10 ^ ((n : Int) - (cs.length : Int))) where
  text := by
    unfold pointText exponentText
    rw [if_neg (by rw [List.drop_eq_nil_iff]; omega), if_pos rfl, List.append_nil]
  isWhole := by
    refine @isWhole_of_head _ (h.sublist (List.take_sublist _ _)) c (ds.take (n - 1)) ?_ hc
    rw [hcs, List.take_cons hpos]
  areFraction := h.sublist (List.drop_sublist _ _)
  areDigits _ hc := absurd hc List.not_mem_nil
  float := by
    rw [List.drop_eq_nil_iff]
    omega
  value := by
    rw [if_pos rfl, List.take_append_drop, List.length_drop]
    congr 2
    rw [Nat.cast_sub hlt.le]
    ring

/-- Digits laid out around a point spell their value. -/
theorem exists_spells_layout (point : Int) : ∃ whole fraction down digits,
    Spells (layout cs point) whole fraction down digits
      (Nat.ofDigitChars 10 cs 0 * 10 ^ (point - (cs.length : Int))) := by
  unfold layout
  dsimp only
  split
  · obtain ⟨digits, hd, hne, hexp, hdigits⟩ := exists_exponentDigits (point - 1)
    refine ⟨[c], ds, decide (point - 1 < 0), digits, ?_⟩
    have hspells := spells_exponent h hcs hc hd hne hexp
    rw [sub_add_cancel] at hspells
    rw [hdigits]
    convert hspells using 2
    · unfold pointText
      simp only [List.isEmpty_iff]
    · unfold exponentText
      rw [if_neg hne]
      simp only [decide_eq_true_eq]
  · split
    · obtain ⟨n, hn⟩ := Int.eq_ofNat_of_zero_le (show 0 ≤ -point by omega)
      rw [hn, show point = -(n : Int) by omega]
      exact ⟨_, _, _, _, spells_below_one h hcs n⟩
    · split
      · obtain ⟨n, hn⟩ := Int.eq_ofNat_of_zero_le (show 0 ≤ point - cs.length by omega)
        rw [hn]
        exact ⟨_, _, _, _, spells_whole h hcs hc n⟩
      · obtain ⟨n, rfl⟩ := Int.eq_ofNat_of_zero_le (show 0 ≤ point by omega)
        exact ⟨_, _, _, _, spells_between h hcs hc (by omega) (by omega)⟩

end Layout

/-- The digits of a positive number without the zeros behind them. -/
theorem exists_trimZeros {d : Nat} (hd : 0 < d) : ∃ c ds n,
    trimZeros (Nat.toDigits 10 d) = c :: ds ∧ c ≠ '0' ∧ AreDigits (trimZeros (Nat.toDigits 10 d)) ∧
      (Nat.toDigits 10 d).length = (trimZeros (Nat.toDigits 10 d)).length + n ∧
        d = Nat.ofDigitChars 10 (trimZeros (Nat.toDigits 10 d)) 0 * 10 ^ n := by
  obtain ⟨n, hn⟩ := trimZeros_append (Nat.toDigits 10 d)
  obtain ⟨cs, hcs⟩ : ∃ cs, cs = trimZeros (Nat.toDigits 10 d) := ⟨_, rfl⟩
  rw [← hcs] at hn ⊢
  -- the first digit is kept, as it is not zero
  obtain ⟨c, ds, hhead, hc⟩ := head_toDigits hd
  have hcut : ∃ ds, cs = c :: ds := by
    rw [hhead] at hn
    cases cs with
    | nil =>
      rw [List.nil_append] at hn
      have hmem : c ∈ List.replicate n '0' := hn ▸ List.mem_cons_self
      exact absurd (List.eq_of_mem_replicate hmem) hc
    | cons c' ds' => exact ⟨ds', by rw [(List.cons.inj hn).1]⟩
  obtain ⟨ds, hds⟩ := hcut
  have hvalue : d = Nat.ofDigitChars 10 cs 0 * 10 ^ n := by
    have h10 : Nat.ofDigitChars 10 (Nat.toDigits 10 d) 0 = d := Nat.ofDigitChars_ten_toDigits
    rw [hn, Nat.ofDigitChars_append, Nat.ofDigitChars_replicate_zero] at h10
    rw [← h10, Nat.mul_comm]
  refine ⟨c, ds, n, hds, hc, ?_, ?_, hvalue⟩
  · exact (areDigits_toDigits d).sublist (by rw [hn]; exact List.sublist_append_left _ _)
  · rw [hn, List.length_append, List.length_replicate]

theorem ofChars_signText (negative : Bool) (cs : List Char) :
    ((if negative then "-" else "" : Text) ++ Text.ofChars cs) =
      Text.ofChars (signText negative ++ cs) := by
  cases negative <;> rfl

/-- The digits of a number that is not zero spell a decimal nearest to it. -/
theorem exists_spells_near {m : Nat} {e : Int} (hm : 0 < m) (hp : Binary64.IsPair m e)
    (negative : Bool) : ∃ cs whole fraction down digits x,
      floatText (.finite negative m e) = Text.ofChars (signText negative ++ cs) ∧
        Spells cs whole fraction down digits x ∧ 0 < x ∧ Binary64.Near m e x := by
  obtain ⟨hd, hnear⟩ := shortest_near hm hp
  rcases hshort : shortest m e with ⟨d, k⟩
  rw [hshort] at hd hnear
  dsimp only at hd hnear
  obtain ⟨c, ds, n, hcs, hc, hdigits, hlength, hvalue⟩ := exists_trimZeros hd
  obtain ⟨whole, fraction, down, digits, hspells⟩ := exists_spells_layout hdigits hcs hc
    ((Nat.toDigits 10 d).length + k)
  obtain ⟨cs, hcs'⟩ : ∃ cs, cs = trimZeros (Nat.toDigits 10 d) := ⟨_, rfl⟩
  rw [← hcs'] at hspells hlength hvalue
  have hsame : (Nat.ofDigitChars 10 cs 0 : ℚ) *
      10 ^ ((Nat.toDigits 10 d).length + k - (cs.length : Int)) = d * 10 ^ k := by
    have hcast : (d : ℚ) = Nat.ofDigitChars 10 cs 0 * 10 ^ n := by exact_mod_cast hvalue
    rw [hcast, mul_assoc, ← zpow_natCast, ← zpow_add₀ (by norm_num)]
    congr 2
    omega
  rw [hsame] at hspells
  refine ⟨_, whole, fraction, down, digits, _, ?_, hspells, ?_, hnear⟩
  · rw [← ofChars_signText, floatText, Binary64.textWith, if_neg hm.ne', hcs', hshort]
  · exact mul_pos (by exact_mod_cast hd) (zpow_pos (by norm_num) _)

/-- The digits of a finite number spell a decimal that reads as it. -/
theorem exists_spells {m : Nat} {e : Int} (hp : Binary64.IsPair m e) (negative : Bool) :
    ∃ cs whole fraction down digits x,
      floatText (.finite negative m e) = Text.ofChars (signText negative ++ cs) ∧
        Spells cs whole fraction down digits x ∧
        ∀ (n : Nat) (k : Int), (n : ℚ) * 10 ^ k = x →
          Binary64.ofDecimal negative n k = .finite negative m e := by
  have hten : ∀ k : Int, (0 : ℚ) < 10 ^ k := fun k => zpow_pos (by norm_num) k
  rcases Nat.eq_zero_or_pos m with rfl | hm
  · have he : e = -1074 := by
      by_contra hne
      have hle := hp.le
      have hfull := hp.full (by omega)
      rw [Binary64.leastFull_eq] at hfull
      exact absurd hfull (by norm_num)
    refine ⟨['0', '.', '0'], ['0'], ['0'], false, [], 0, ofChars_signText _ _, ?_, fun n k hn => ?_⟩
    · exact ⟨rfl, ⟨areDigits_zeros 1, List.cons_ne_nil _ _, fun _ => rfl⟩, areDigits_zeros 1,
        fun _ hc => absurd hc List.not_mem_nil, by simp, by norm_num [Nat.ofDigitChars_cons]⟩
    · have hn0 : n = 0 := by exact_mod_cast (mul_eq_zero.mp hn).resolve_right (hten k).ne'
      rw [hn0, he, Binary64.ofDecimal, if_pos rfl]
      rfl
  · obtain ⟨cs, whole, fraction, down, digits, x, htext, hspells, hx, hnear⟩ :=
      exists_spells_near hm hp negative
    refine ⟨cs, whole, fraction, down, digits, x, htext, hspells, fun n k hn => ?_⟩
    rw [← hn] at hx hnear
    have hpos : 0 < n := by exact_mod_cast pos_of_mul_pos_left hx (hten k).le
    exact Binary64.ofDecimal_eq hpos hm hp hnear

/-- **Floating-point numbers are read as they were written.** -/
theorem readScalar_float {x : Binary64} (hx : x.Proper) {rest : Text} (hr : Stops rest) :
    readScalar (floatText x ++ rest) = .ok (.float x, rest) := by
  cases x with
  | nan => rfl
  | infinity negative => cases negative <;> rfl
  | finite negative m e =>
    obtain ⟨cs, whole, fraction, down, digits, v, htext, hs, hread⟩ := exists_spells hx negative
    rw [htext, hs.text, ← List.append_assoc, ← List.append_assoc]
    refine readScalar_numberText hs.isWhole ?_
    rw [readNumber?_numberText hs.isWhole hs.areFraction hs.areDigits hr, if_neg hs.float,
      hread _ _ hs.value]

end Json

end UberPackage
