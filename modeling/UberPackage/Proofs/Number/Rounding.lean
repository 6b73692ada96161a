/-
  Rounding to the nearest binary number.

  A finite number is told by its mantissa and its exponent (`Binary64.IsPair`).  All ratios nearer
  to it than to its neighbours (`Binary64.Near`) round to it (`ofRatio_eq`), and all decimals there
  read as it (`ofDecimal_eq`).  Whatever a decimal reads as is a proper number (`proper_ofDecimal`).
-/
import Mathlib.Algebra.Order.Field.Power
import Mathlib.Data.Rat.Cast.Order
import Mathlib.Tactic.FieldSimp
import Mathlib.Tactic.Linarith
import Mathlib.Tactic.NormNum
import Mathlib.Tactic.Positivity
import Mathlib.Tactic.Ring
import UberPackage.Number.Binary64

namespace UberPackage.Binary64

/-! ## Finite numbers -/

/-- The mantissa and the exponent of a finite number. -/
structure IsPair (m : Nat) (e : Int) : Prop where
  lt : m < 2 * leastFull
  le : -1074 ≤ e
  top : e ≤ 971
  full : -1074 < e → leastFull ≤ m

/-- A finite number has a mantissa and an exponent that fit. -/
def Proper : Binary64 → Prop
  | finite _ m e => IsPair m e
  | _ => True

/-- How far below a number, in units of its last place, the ratios reach that are nearest to it. -/
def reach (m : Nat) (e : Int) : ℚ := if m = leastFull ∧ -1074 < e then 1 / 4 else 1 / 2

/-- The ratio is nearest to the number; halfway it is if the mantissa is even. -/
def Near (m : Nat) (e : Int) (x : ℚ) : Prop :=
  (m - reach m e) * 2 ^ e ≤ x ∧ x ≤ (m + 1 / 2) * 2 ^ e ∧
    (m % 2 = 1 → (m - reach m e) * 2 ^ e < x ∧ x < (m + 1 / 2) * 2 ^ e)

theorem leastFull_eq : leastFull = 2 ^ 52 := by
  rw [leastFull, Nat.shiftLeft_eq, Nat.one_mul]

theorem cast_leastFull : ((leastFull : Nat) : ℚ) = 2 ^ 52 := by
  rw [leastFull_eq]
  norm_num

theorem reach_pos (m : Nat) (e : Int) : 0 < reach m e := by
  unfold reach
  split <;> norm_num

theorem reach_le (m : Nat) (e : Int) : reach m e ≤ 1 / 2 := by
  unfold reach
  split <;> norm_num

theorem two_zpow_pos (e : Int) : (0 : ℚ) < 2 ^ e := zpow_pos (by norm_num) e

theorem mul_two_zpow_neg (x : ℚ) (e : Int) : x * 2 ^ (-e) * 2 ^ e = x := by
  rw [zpow_neg, inv_mul_cancel_right₀ (two_zpow_pos e).ne']

/-- The mantissa of a finite number, as a rational number. -/
theorem IsPair.cast_le {m : Nat} {e : Int} (hp : IsPair m e) : (m : ℚ) ≤ 2 ^ 53 - 1 := by
  have h : m + 1 ≤ 2 * leastFull := hp.lt
  have h' : ((m + 1 : Nat) : ℚ) ≤ ((2 * leastFull : Nat) : ℚ) := by exact_mod_cast h
  push_cast at h'
  rw [cast_leastFull] at h'
  linarith

theorem proper_zero (negative : Bool) : Proper (zero negative) :=
  ⟨by decide, by decide, by decide, fun h => absurd h (by decide)⟩

/-! ## Scaling -/

theorem scale_pos {num den : Nat} (hd : 0 < den) (e : Int) : 0 < (scale num den e).2 := by
  unfold scale
  split
  · exact hd
  · rw [Nat.shiftLeft_eq]
    positivity

theorem scale_ratio (num : Nat) {den : Nat} (hd : 0 < den) (e : Int) :
    ((scale num den e).1 : ℚ) / (scale num den e).2 = num / den * 2 ^ e := by
  have hden : (den : ℚ) ≠ 0 := by positivity
  unfold scale
  split
  · next he =>
    obtain ⟨k, rfl⟩ := Int.eq_ofNat_of_zero_le he
    rw [Nat.shiftLeft_eq, Int.toNat_natCast, zpow_natCast]
    push_cast
    field_simp
  · next he =>
    obtain ⟨k, hk⟩ := Int.eq_ofNat_of_zero_le (show 0 ≤ -e by omega)
    have hek : e = -(k : Int) := by omega
    rw [Nat.shiftLeft_eq, hk, Int.toNat_natCast, hek, zpow_neg, zpow_natCast]
    push_cast
    field_simp

/-- The quotient at an exponent, compared with a natural number. -/
theorem le_scale_iff (num : Nat) {den : Nat} (hd : 0 < den) (e : Int) (k : Nat) :
    k * (scale num den (-e)).2 ≤ (scale num den (-e)).1 ↔ (k : ℚ) * 2 ^ e ≤ num / den := by
  have hp : (0 : ℚ) < (scale num den (-e)).2 := by exact_mod_cast scale_pos hd (-e)
  calc k * (scale num den (-e)).2 ≤ (scale num den (-e)).1
      ↔ (k : ℚ) * (scale num den (-e)).2 ≤ (scale num den (-e)).1 := by exact_mod_cast Iff.rfl
    _ ↔ (k : ℚ) ≤ num / den * 2 ^ (-e) := by rw [← le_div_iff₀ hp, scale_ratio num hd]
    _ ↔ (k : ℚ) * 2 ^ e ≤ num / den := by
        rw [← mul_le_mul_iff_of_pos_right (two_zpow_pos e), mul_two_zpow_neg]

theorem scale_le_iff (num : Nat) {den : Nat} (hd : 0 < den) (e : Int) (k : Nat) :
    (scale num den (-e)).1 ≤ k * (scale num den (-e)).2 ↔ (num / den : ℚ) ≤ k * 2 ^ e := by
  have hp : (0 : ℚ) < (scale num den (-e)).2 := by exact_mod_cast scale_pos hd (-e)
  calc (scale num den (-e)).1 ≤ k * (scale num den (-e)).2
      ↔ ((scale num den (-e)).1 : ℚ) ≤ k * (scale num den (-e)).2 := by exact_mod_cast Iff.rfl
    _ ↔ num / den * 2 ^ (-e) ≤ (k : ℚ) := by rw [← div_le_iff₀ hp, scale_ratio num hd]
    _ ↔ (num / den : ℚ) ≤ k * 2 ^ e := by
        rw [← mul_le_mul_iff_of_pos_right (two_zpow_pos e), mul_two_zpow_neg]

/-- The whole part of the quotient at an exponent. -/
theorem scale_div_lt_iff (num : Nat) {den : Nat} (hd : 0 < den) (e : Int) (k : Nat) :
    (scale num den (-e)).1 / (scale num den (-e)).2 < k ↔ (num / den : ℚ) < k * 2 ^ e := by
  rw [Nat.div_lt_iff_lt_mul (scale_pos hd (-e)), ← not_le, le_scale_iff num hd, not_le]

/-! ## Rounding a quotient -/

theorem roundDiv_eq {num den m : Nat} (hd : 0 < den) (hlow : 2 * m * den ≤ 2 * num + den)
    (hhigh : 2 * num ≤ 2 * m * den + den)
    (htie : m % 2 = 1 → 2 * m * den < 2 * num + den ∧ 2 * num < 2 * m * den + den) :
    roundDiv num den = m := by
  have hsplit := Nat.div_add_mod num den
  have hrest := Nat.mod_lt num hd
  unfold roundDiv
  generalize num / den = q at hsplit ⊢
  generalize num % den = r at hsplit hrest ⊢
  have hq : q ≤ m := by
    by_contra h
    have : den * (m + 1) ≤ den * q := Nat.mul_le_mul_left _ (by omega)
    nlinarith
  have hq' : m ≤ q + 1 := by
    by_contra h
    have : den * (q + 2) ≤ den * m := Nat.mul_le_mul_left _ (by omega)
    nlinarith
  dsimp only
  rcases Nat.lt_or_eq_of_le hq with hlt | rfl
  · obtain rfl : m = q + 1 := by omega
    have hr : den ≤ 2 * r := by nlinarith
    have htie' : (q + 1) % 2 = 1 → den < 2 * r := fun h => by
      have := (htie h).1
      nlinarith
    split
    · omega
    · split
      · rfl
      · split
        · have := htie' (by omega)
          omega
        · rfl
  · have hr : 2 * r ≤ den := by nlinarith
    have htie' : q % 2 = 1 → 2 * r < den := fun h => by
      have := (htie h).2
      nlinarith
    split
    · rfl
    · split
      · omega
      · split
        · rfl
        · have := htie' (by omega)
          omega

/-- The quotient of a ratio told in rational numbers rounds so. -/
theorem roundDiv_ratio {num den m : Nat} (hd : 0 < den) {y : ℚ} (hy : (num : ℚ) / den = y)
    (hlow : m - 1 / 2 ≤ y) (hhigh : y ≤ m + 1 / 2)
    (htie : m % 2 = 1 → m - 1 / 2 < y ∧ y < m + 1 / 2) : roundDiv num den = m := by
  have hden : (0 : ℚ) < den := by exact_mod_cast hd
  have hnum : (num : ℚ) = y * den := by rw [← hy]; field_simp
  have hle : ∀ a b : Nat, ((a : ℚ) ≤ b) → a ≤ b := fun a b h => by exact_mod_cast h
  have hlt : ∀ a b : Nat, ((a : ℚ) < b) → a < b := fun a b h => by exact_mod_cast h
  refine roundDiv_eq hd (hle _ _ ?_) (hle _ _ ?_) fun hm => ⟨hlt _ _ ?_, hlt _ _ ?_⟩
  · push_cast
    nlinarith
  · push_cast
    nlinarith
  · have := (htie hm).1
    push_cast
    nlinarith
  · have := (htie hm).2
    push_cast
    nlinarith

theorem roundDiv_bounds {num den low high : Nat} (hd : 0 < den) (hlow : low * den ≤ num)
    (hhigh : num ≤ high * den) : low ≤ roundDiv num den ∧ roundDiv num den ≤ high := by
  have hq : low ≤ num / den := (Nat.le_div_iff_mul_le hd).mpr hlow
  have hq' : num / den ≤ high := Nat.div_le_of_le_mul (by rwa [Nat.mul_comm])
  have hrest : num / den = high → num % den = 0 := fun h => by
    have hsplit := Nat.div_add_mod num den
    rw [h, Nat.mul_comm] at hsplit
    omega
  unfold roundDiv
  dsimp only
  split
  · omega
  · split
    · omega
    · split
      · omega
      · omega

/-! ## The exponent -/

/-- The logarithms place a ratio between two powers. -/
theorem ratio_log2 {num den : Nat} (hn : 0 < num) (hd : 0 < den) :
    (2 : ℚ) ^ ((num.log2 : Int) - den.log2 - 1) < num / den ∧
      (num / den : ℚ) < 2 ^ ((num.log2 : Int) - den.log2 + 1) := by
  have two : (2 : ℚ) ≠ 0 := by norm_num
  have hden : (0 : ℚ) < den := by exact_mod_cast hd
  have hnum : ((2 ^ num.log2 : Nat) : ℚ) ≤ num ∧ (num : ℚ) < ((2 ^ (num.log2 + 1) : Nat) : ℚ) :=
    ⟨by exact_mod_cast Nat.log2_self_le hn.ne', by exact_mod_cast Nat.lt_log2_self⟩
  have hden' : ((2 ^ den.log2 : Nat) : ℚ) ≤ den ∧ (den : ℚ) < ((2 ^ (den.log2 + 1) : Nat) : ℚ) :=
    ⟨by exact_mod_cast Nat.log2_self_le hd.ne', by exact_mod_cast Nat.lt_log2_self⟩
  push_cast at hnum hden'
  constructor
  · rw [lt_div_iff₀ hden]
    calc (2 : ℚ) ^ ((num.log2 : Int) - den.log2 - 1) * den
        < 2 ^ ((num.log2 : Int) - den.log2 - 1) * 2 ^ (den.log2 + 1) :=
          mul_lt_mul_of_pos_left hden'.2 (two_zpow_pos _)
      _ = 2 ^ num.log2 := by
          rw [← zpow_natCast, ← zpow_natCast, ← zpow_add₀ two]
          congr 1
          push_cast
          ring
      _ ≤ num := hnum.1
  · rw [div_lt_iff₀ hden]
    calc (num : ℚ) < 2 ^ (num.log2 + 1) := hnum.2
      _ = 2 ^ ((num.log2 : Int) - den.log2 + 1) * 2 ^ den.log2 := by
          rw [← zpow_natCast, ← zpow_natCast, ← zpow_add₀ two]
          congr 1
          push_cast
          ring
      _ ≤ 2 ^ ((num.log2 : Int) - den.log2 + 1) * den :=
          mul_le_mul_of_nonneg_left hden'.1 (two_zpow_pos _).le

/-- The exponent before rounding leaves a quotient of 53 bits, unless it is the least one. -/
theorem exists_exponentOf {num den : Nat} (hn : 0 < num) (hd : 0 < den) :
    ∃ e : Int, exponentOf num den = max e (-1074) ∧
      (2 : ℚ) ^ 52 * 2 ^ e ≤ num / den ∧ (num / den : ℚ) < 2 ^ 53 * 2 ^ e := by
  have two : (2 : ℚ) ≠ 0 := by norm_num
  obtain ⟨hbelow, habove⟩ := ratio_log2 hn hd
  -- the guess is right or one too high
  obtain ⟨g, hg⟩ : ∃ g : Int, g = (num.log2 : Int) - den.log2 - 52 := ⟨_, rfl⟩
  have hlow : (2 : ℚ) ^ 51 * 2 ^ g < num / den := by
    rwa [← zpow_natCast, ← zpow_add₀ two, show ((51 : Nat) : Int) + g = num.log2 - den.log2 - 1 by
      omega]
  have hhigh : (num / den : ℚ) < 2 ^ 53 * 2 ^ g := by
    rwa [← zpow_natCast, ← zpow_add₀ two, show ((53 : Nat) : Int) + g = num.log2 - den.log2 + 1 by
      omega]
  have hexp : exponentOf num den =
      max (if (scale num den (-g)).1 / (scale num den (-g)).2 < leastFull then g - 1 else
        if (scale num den (-g)).1 / (scale num den (-g)).2 ≥ 2 * leastFull then g + 1 else g)
        (-1074) := by
    rw [hg]
    rfl
  have hfit : ¬ (scale num den (-g)).1 / (scale num den (-g)).2 ≥ 2 * leastFull := by
    rw [ge_iff_le, not_le, scale_div_lt_iff num hd]
    push_cast
    rw [cast_leastFull]
    linarith
  rw [if_neg hfit] at hexp
  have hsmall := scale_div_lt_iff num hd g leastFull
  rw [cast_leastFull] at hsmall
  by_cases hless : (num / den : ℚ) < 2 ^ 52 * 2 ^ g
  · refine ⟨g - 1, by rw [hexp, if_pos (hsmall.mpr hless)], ?_, ?_⟩ <;>
      · rw [zpow_sub₀ two, zpow_one]
        linarith
  · exact ⟨g, by rw [hexp, if_neg (mt hsmall.mp hless)], not_lt.mp hless, hhigh⟩

/-- There is one exponent that leaves a quotient of 53 bits. -/
theorem exponent_unique {x : ℚ} {e e' : Int} (h : (2 : ℚ) ^ 52 * 2 ^ e ≤ x)
    (h' : x < 2 ^ 53 * 2 ^ e') : e ≤ e' := by
  by_contra hlt
  have two : (2 : ℚ) ≠ 0 := by norm_num
  have hmono : (2 : ℚ) ^ (e' + 1) ≤ 2 ^ e := zpow_le_zpow_right₀ (by norm_num) (by omega)
  rw [zpow_add₀ two, zpow_one] at hmono
  have := two_zpow_pos e'
  linarith

/-! ## Rounding a ratio -/

theorem ofRatio_of_roundDiv {negative : Bool} {num den m : Nat} {e : Int} (hn : num ≠ 0)
    (he : exponentOf num den = e)
    (hm : roundDiv (scale num den (-e)).1 (scale num den (-e)).2 = m) :
    ofRatio negative num den =
      if (if m = 2 * leastFull then e + 1 else e) > 971 then infinity negative
      else finite negative (if m = 2 * leastFull then leastFull else m)
        (if m = 2 * leastFull then e + 1 else e) := by
  unfold ofRatio
  rw [if_neg hn]
  dsimp only
  rw [he, hm]
  split <;> rfl

/-- The exponent before rounding is the one of the nearest number. -/
theorem ofRatio_eq_of_exponentOf {negative : Bool} {num den m : Nat} {e : Int} (hn : 0 < num)
    (hd : 0 < den) (hp : IsPair m e) (hnear : Near m e (num / den)) (he : exponentOf num den = e) :
    ofRatio negative num den = finite negative m e := by
  have hpow := two_zpow_pos e
  have hreach := mul_le_mul_of_nonneg_right
    (show (m : ℚ) - 1 / 2 ≤ m - reach m e by linarith [reach_le m e]) hpow.le
  obtain ⟨hlow, hhigh, htie⟩ := hnear
  have hround : roundDiv (scale num den (-e)).1 (scale num den (-e)).2 = m := by
    rw [← mul_two_zpow_neg (num / den) e] at hlow hhigh htie
    refine roundDiv_ratio (scale_pos hd _) (scale_ratio num hd _) ?_ ?_ fun hodd => ⟨?_, ?_⟩
    · exact le_of_mul_le_mul_right (le_trans hreach hlow) hpow
    · exact le_of_mul_le_mul_right hhigh hpow
    · exact lt_of_mul_lt_mul_right (lt_of_le_of_lt hreach (htie hodd).1) hpow.le
    · exact lt_of_mul_lt_mul_right (htie hodd).2 hpow.le
  have hne : m ≠ 2 * leastFull := hp.lt.ne
  rw [ofRatio_of_roundDiv hn.ne' he hround, if_neg hne, if_neg hne,
    if_neg (by have := hp.top; omega)]

/-- Rounding carries into the next exponent just below the least number of 53 bits. -/
theorem ofRatio_eq_of_carry {negative : Bool} {num den : Nat} {e : Int} (hn : 0 < num)
    (hd : 0 < den) (htop : e ≤ 971) (he : exponentOf num den = e - 1)
    (hlow : (2 ^ 52 - 1 / 4 : ℚ) * 2 ^ e ≤ num / den) (hhigh : (num / den : ℚ) < 2 ^ 52 * 2 ^ e) :
    ofRatio negative num den = finite negative leastFull e := by
  have two : (2 : ℚ) ≠ 0 := by norm_num
  have hpow := two_zpow_pos e
  have hdouble : num / den * (2 : ℚ) ^ (-(e - 1)) * 2 ^ e = 2 * (num / den) := by
    rw [mul_assoc, ← zpow_add₀ two, show -(e - 1) + e = 1 by ring, zpow_one, mul_comm]
  have hround : roundDiv (scale num den (-(e - 1))).1 (scale num den (-(e - 1))).2 =
      2 * leastFull := by
    refine roundDiv_ratio (scale_pos hd _) (scale_ratio num hd _) ?_ ?_ fun hodd =>
      absurd hodd (by decide)
    · push_cast
      rw [cast_leastFull]
      refine le_of_mul_le_mul_right ?_ hpow
      rw [hdouble]
      linarith
    · push_cast
      rw [cast_leastFull]
      refine le_of_mul_le_mul_right ?_ hpow
      rw [hdouble]
      linarith
  rw [ofRatio_of_roundDiv hn.ne' he hround, if_pos rfl, if_pos rfl, sub_add_cancel,
    if_neg (by omega)]

/-- A ratio below the exponent of its nearest number is just below the least number of 53 bits. -/
theorem Near.carry {m : Nat} {e g : Int} {x : ℚ} (hp : IsPair m e) (hnear : Near m e x)
    (hlast : -1074 < e) (hge : g < e) (hghigh : x < 2 ^ 53 * 2 ^ g) :
    m = leastFull ∧ (2 ^ 52 - 1 / 4 : ℚ) * 2 ^ e ≤ x ∧ x < 2 ^ 52 * 2 ^ e := by
  have two : (2 : ℚ) ≠ 0 := by norm_num
  have hpow := two_zpow_pos e
  have hlow := hnear.1
  have hsmall : x < 2 ^ 52 * 2 ^ e := by
    have hmono : (2 : ℚ) ^ (g + 1) ≤ 2 ^ e := zpow_le_zpow_right₀ (by norm_num) (by omega)
    rw [zpow_add₀ two, zpow_one] at hmono
    linarith
  have hleast : m = leastFull := by
    have hm : (m : ℚ) < 2 ^ 52 + 1 := by
      have := lt_of_mul_lt_mul_right (lt_of_le_of_lt hlow hsmall) hpow.le
      linarith [reach_le m e]
    rw [← cast_leastFull] at hm
    have hlt : m < leastFull + 1 := by exact_mod_cast hm
    have := hp.full hlast
    omega
  have hquarter : reach m e = 1 / 4 := if_pos ⟨hleast, hlast⟩
  rw [hquarter, hleast, cast_leastFull] at hlow
  exact ⟨hleast, hlow, hsmall⟩

/-- **A ratio nearest to a number rounds to it.** -/
theorem ofRatio_eq {negative : Bool} {num den m : Nat} {e : Int} (hn : 0 < num) (hd : 0 < den)
    (hp : IsPair m e) (hnear : Near m e (num / den)) :
    ofRatio negative num den = finite negative m e := by
  have two : (2 : ℚ) ≠ 0 := by norm_num
  obtain ⟨g, hg, hglow, hghigh⟩ := exists_exponentOf hn hd
  have hpow := two_zpow_pos e
  have hge : g ≤ e := by
    refine exponent_unique hglow (lt_of_le_of_lt hnear.2.1 ?_)
    exact mul_lt_mul_of_pos_right (by linarith [hp.cast_le]) hpow
  by_cases hnormal : exponentOf num den = e
  · exact ofRatio_eq_of_exponentOf hn hd hp hnear hnormal
  · have hle := hp.le
    have hlast : -1074 < e ∧ g < e := by
      rw [hg] at hnormal
      omega
    obtain ⟨rfl, hlow, hhigh⟩ := hnear.carry hp hlast.1 hlast.2 hghigh
    have hnext : e - 1 ≤ g := by
      refine exponent_unique ?_ hghigh
      rw [zpow_sub₀ two, zpow_one]
      linarith
    exact ofRatio_eq_of_carry hn hd hp.top (by omega) hlow hhigh

/-- Whatever a ratio rounds to is a proper number. -/
theorem proper_ofRatio (negative : Bool) (num : Nat) {den : Nat} (hd : 0 < den) :
    Proper (ofRatio negative num den) := by
  by_cases hn : num = 0
  · rw [ofRatio, if_pos hn]
    exact proper_zero negative
  · obtain ⟨g, hg, hglow, hghigh⟩ := exists_exponentOf (Nat.pos_of_ne_zero hn) hd
    obtain ⟨e, he⟩ : ∃ e, e = exponentOf num den := ⟨_, rfl⟩
    have hge : g ≤ e ∧ -1074 ≤ e ∧ (-1074 < e → g = e) := by
      rw [hg] at he
      omega
    -- the quotient has 53 bits at most
    have hhigh : (scale num den (-e)).1 ≤ 2 * leastFull * (scale num den (-e)).2 := by
      have hmono : (2 : ℚ) ^ g ≤ 2 ^ e := zpow_le_zpow_right₀ (by norm_num) hge.1
      rw [scale_le_iff num hd]
      push_cast
      rw [cast_leastFull]
      linarith
    have hlow : -1074 < e → leastFull * (scale num den (-e)).2 ≤ (scale num den (-e)).1 :=
      fun hlast => by rwa [le_scale_iff num hd, cast_leastFull, ← hge.2.2 hlast]
    obtain ⟨m, hm⟩ : ∃ m, roundDiv (scale num den (-e)).1 (scale num den (-e)).2 = m := ⟨_, rfl⟩
    have hp := @scale_pos num den hd (-e)
    have hbound : m ≤ 2 * leastFull := by
      rw [← hm]
      exact (roundDiv_bounds hp (Nat.zero_mul _ ▸ Nat.zero_le _) hhigh).2
    have hbound' : -1074 < e → leastFull ≤ m := fun hlast => by
      rw [← hm]
      exact (roundDiv_bounds hp (hlow hlast) hhigh).1
    rw [ofRatio_of_roundDiv hn he.symm hm]
    by_cases hcarry : m = 2 * leastFull
    · rw [if_pos hcarry, if_pos hcarry]
      split
      · trivial
      · exact ⟨by decide, by omega, by omega, fun _ => Nat.le_refl _⟩
    · rw [if_neg hcarry, if_neg hcarry]
      split
      · trivial
      · exact ⟨by omega, hge.2.1, by omega, hbound'⟩

/-! ## Decimals -/

theorem tenTo_eq (n : Nat) : tenTo n = 10 ^ n := rfl

theorem proper_ofDecimal (negative : Bool) (digits : Nat) (exponent : Int) :
    Proper (ofDecimal negative digits exponent) := by
  unfold ofDecimal
  split
  · exact proper_zero negative
  · dsimp only
    split
    · trivial
    · split
      · exact proper_zero negative
      · split
        · exact proper_ofRatio _ _ (by decide)
        · exact proper_ofRatio _ _ (by rw [tenTo_eq]; positivity)

/-- The number of digits places a decimal between two powers of ten. -/
theorem decimal_bounds {digits : Nat} (hd : 0 < digits) (exponent : Int) :
    (10 : ℚ) ^ (((Nat.toDigits 10 digits).length : Int) + exponent - 1) ≤ digits * 10 ^ exponent ∧
      (digits * 10 ^ exponent : ℚ) < 10 ^ (((Nat.toDigits 10 digits).length : Int) + exponent) := by
  have ten : (10 : ℚ) ≠ 0 := by norm_num
  have hpow : (0 : ℚ) < 10 ^ exponent := zpow_pos (by norm_num) _
  obtain ⟨k, hk⟩ : ∃ k, (Nat.toDigits 10 digits).length = k + 1 :=
    Nat.exists_eq_add_one_of_ne_zero Nat.length_toDigits_pos.ne'
  have hlow : 10 ^ k ≤ digits := by
    rcases Nat.eq_zero_or_pos k with rfl | hpos
    · exact hd
    · by_contra h
      have := (Nat.length_toDigits_le_iff (by decide) hpos).mpr (Nat.lt_of_not_le h)
      omega
  have hhigh : digits < 10 ^ (k + 1) :=
    (Nat.length_toDigits_le_iff (by decide) (Nat.succ_pos k)).mp hk.le
  have hlow' : (10 : ℚ) ^ k ≤ digits := by exact_mod_cast hlow
  have hhigh' : (digits : ℚ) < 10 ^ (k + 1) := by exact_mod_cast hhigh
  rw [hk]
  constructor
  · calc (10 : ℚ) ^ (((k + 1 : Nat) : Int) + exponent - 1) = 10 ^ k * 10 ^ exponent := by
          rw [← zpow_natCast, ← zpow_add₀ ten]
          congr 1
          push_cast
          ring
      _ ≤ digits * 10 ^ exponent := mul_le_mul_of_nonneg_right hlow' hpow.le
  · calc (digits : ℚ) * 10 ^ exponent < 10 ^ (k + 1) * 10 ^ exponent :=
          mul_lt_mul_of_pos_right hhigh' hpow
      _ = 10 ^ (((k + 1 : Nat) : Int) + exponent) := by
          rw [← zpow_natCast, ← zpow_add₀ ten]

theorem two_zpow_lt_ten_zpow : (2 : ℚ) ^ (1200 : Int) < 10 ^ (400 : Int) := by
  rw [show (1200 : Int) = 3 * 400 by decide, zpow_mul]
  exact zpow_lt_zpow_left₀ (by norm_num) (by norm_num) (by norm_num)

/-- The numbers nearest to a positive one are within the range of exponents. -/
theorem Near.range {m : Nat} {e : Int} {x : ℚ} (hm : 0 < m) (hp : IsPair m e) (h : Near m e x) :
    (10 : ℚ) ^ (-400 : Int) < x ∧ x < 10 ^ (400 : Int) := by
  have hm' : (1 : ℚ) ≤ m := by exact_mod_cast hm
  have hmt := hp.cast_le
  have hlow : (2 : ℚ) ^ (-1074 : Int) ≤ 2 ^ e := zpow_le_zpow_right₀ (by norm_num) hp.le
  have hhigh : (2 : ℚ) ^ e ≤ 2 ^ (971 : Int) := zpow_le_zpow_right₀ (by norm_num) hp.top
  have hreach := reach_le m e
  have hpow := two_zpow_pos e
  constructor
  · calc (10 : ℚ) ^ (-400 : Int) < 2 ^ (-1200 : Int) := by
          rw [zpow_neg, zpow_neg]
          exact inv_strictAnti₀ (two_zpow_pos _) two_zpow_lt_ten_zpow
      _ ≤ 2 ^ (-1 + -1074 : Int) := zpow_le_zpow_right₀ (by norm_num) (by norm_num)
      _ = 1 / 2 * 2 ^ (-1074 : Int) := by rw [zpow_add₀ (by norm_num), zpow_neg_one, one_div]
      _ ≤ 1 / 2 * 2 ^ e := by linarith
      _ ≤ (m - reach m e) * 2 ^ e := mul_le_mul_of_nonneg_right (by linarith) hpow.le
      _ ≤ x := h.1
  · calc x ≤ (m + 1 / 2) * 2 ^ e := h.2.1
      _ ≤ (2 ^ 53 + 1 / 2) * 2 ^ e := mul_le_mul_of_nonneg_right (by linarith) hpow.le
      _ ≤ (2 ^ 53 + 1 / 2) * 2 ^ (971 : Int) := mul_le_mul_of_nonneg_left hhigh (by norm_num)
      _ ≤ 2 ^ (54 : Int) * 2 ^ (971 : Int) :=
          mul_le_mul_of_nonneg_right (by norm_num) (two_zpow_pos _).le
      _ = 2 ^ (1025 : Int) := by rw [← zpow_add₀ (by norm_num)]; norm_num only
      _ ≤ 2 ^ (1200 : Int) := zpow_le_zpow_right₀ (by norm_num) (by norm_num)
      _ < 10 ^ (400 : Int) := two_zpow_lt_ten_zpow

/-- **A decimal nearest to a number reads as it.** -/
theorem ofDecimal_eq {negative : Bool} {digits m : Nat} {exponent e : Int} (hd : 0 < digits)
    (hm : 0 < m) (hp : IsPair m e) (hnear : Near m e (digits * 10 ^ exponent)) :
    ofDecimal negative digits exponent = finite negative m e := by
  obtain ⟨hlow, hhigh⟩ := hnear.range hm hp
  obtain ⟨hlow', hhigh'⟩ := decimal_bounds hd exponent
  have hten : (1 : ℚ) < 10 := by norm_num
  have hmag : (Nat.toDigits 10 digits).length + exponent - 1 < 400 :=
    (zpow_lt_zpow_iff_right₀ hten).mp (lt_of_le_of_lt hlow' hhigh)
  have hmag' : -400 < (Nat.toDigits 10 digits).length + exponent :=
    (zpow_lt_zpow_iff_right₀ hten).mp (lt_trans hlow hhigh')
  unfold ofDecimal
  rw [if_neg hd.ne']
  dsimp only
  rw [if_neg (by omega), if_neg (by omega)]
  split
  · next he =>
    obtain ⟨k, rfl⟩ := Int.eq_ofNat_of_zero_le he
    rw [Int.toNat_natCast, tenTo_eq]
    refine ofRatio_eq (by positivity) (by decide) hp ?_
    rw [zpow_natCast] at hnear
    push_cast
    rwa [div_one]
  · next he =>
    obtain ⟨k, hk⟩ := Int.eq_ofNat_of_zero_le (show 0 ≤ -exponent by omega)
    have hek : exponent = -(k : Int) := by omega
    rw [hk, Int.toNat_natCast, tenTo_eq]
    refine ofRatio_eq hd (by positivity) hp ?_
    rw [hek, zpow_neg, zpow_natCast, ← div_eq_mul_inv] at hnear
    push_cast
    exact hnear

end UberPackage.Binary64
