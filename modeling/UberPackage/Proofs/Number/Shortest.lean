/-
  The fewest digits that read back.

  A decimal is in the span of a number just when it is nearest to it (`Span.Spans.holds_iff`).
  Seventeen digits always reach the span (`exists_withDigits?_seventeen`), so the search for the
  fewest digits succeeds and what it gives reads as the number (`shortest_near`).
-/
import UberPackage.Number.Decimal
import UberPackage.Proofs.Number.Rounding

namespace UberPackage.Decimal

open Binary64

/-! ## Spans -/

theorem scale_den (num num' den : Nat) (e : Int) : (scale num den e).2 = (scale num' den e).2 := by
  unfold scale
  split <;> rfl

/-- The parts of a span as rational numbers. -/
structure Span.Spans (s : Span) (m : Nat) (e : Int) : Prop where
  pos : (0 : ℚ) < s.den
  low : (s.low : ℚ) = (m - reach m e) * 2 ^ e * s.den
  value : (s.value : ℚ) = m * 2 ^ e * s.den
  high : (s.high : ℚ) = (m + 1 / 2) * 2 ^ e * s.den
  closed : s.closed = decide (m % 2 = 0)

theorem span_spans {m : Nat} (hm : 0 < m) (e : Int) : (span m e).Spans m e := by
  have hden : ∀ quarters : Nat, ((scale quarters 4 e).1 : ℚ) =
      quarters / 4 * 2 ^ e * (span m e).den := by
    intro quarters
    have hpos : (0 : ℚ) < (scale quarters 4 e).2 := by exact_mod_cast scale_pos (by decide) e
    rw [show (span m e).den = (scale quarters 4 e).2 from scale_den _ _ _ _]
    have hratio := scale_ratio quarters (show 0 < 4 by decide) e
    rw [div_eq_iff hpos.ne'] at hratio
    rw [hratio]
    push_cast
    ring
  refine ⟨by exact_mod_cast scale_pos (by decide) e, ?_, ?_, ?_, rfl⟩
  · show ((scale (4 * m - if (m = leastFull && e > -1074) = true then 1 else 2) 4 e).1 : ℚ) = _
    rw [hden]
    unfold reach
    by_cases hn : m = leastFull ∧ -1074 < e
    · rw [if_pos hn, if_pos (by simpa using hn), Nat.cast_sub (by omega)]
      push_cast
      ring
    · rw [if_neg hn, if_neg (by simpa using hn), Nat.cast_sub (by omega)]
      push_cast
      ring
  · show ((scale (4 * m) 4 e).1 : ℚ) = _
    rw [hden]
    push_cast
    ring
  · show ((scale (4 * m + 2) 4 e).1 : ℚ) = _
    rw [hden]
    push_cast
    ring

theorem Span.Spans.holds_iff {s : Span} {m : Nat} {e : Int} (h : s.Spans m e) {num den : Nat}
    (hd : 0 < den) : s.holds num den = true ↔ Near m e (num / den) := by
  have hden : (0 : ℚ) < den := by exact_mod_cast hd
  have hpos := h.pos
  have hcast : ∀ a b : Nat, a ≤ b ↔ (a : ℚ) ≤ b := fun _ _ => Nat.cast_le.symm
  -- both sides are multiplied by the two denominators
  have hle :
      ∀ (a : Nat) (x : ℚ), (a : ℚ) = x * s.den → (a * den ≤ num * s.den ↔ x ≤ num / den) := by
    intro a x ha
    rw [le_div_iff₀ hden, hcast]
    push_cast
    rw [ha, mul_right_comm, mul_le_mul_iff_left₀ hpos]
  have hge :
      ∀ (a : Nat) (x : ℚ), (a : ℚ) = x * s.den → (num * s.den ≤ a * den ↔ num / den ≤ x) := by
    intro a x ha
    rw [div_le_iff₀ hden, hcast]
    push_cast
    rw [ha, mul_right_comm, mul_le_mul_iff_left₀ hpos]
  unfold Span.holds Near
  dsimp only
  rw [h.closed]
  by_cases hm : m % 2 = 0
  · rw [if_pos (by simpa using hm), Bool.and_eq_true, decide_eq_true_eq, decide_eq_true_eq,
      hle _ _ h.low, hge _ _ h.high]
    exact ⟨fun ⟨a, b⟩ => ⟨a, b, fun h => absurd h (by omega)⟩, fun ⟨a, b, _⟩ => ⟨a, b⟩⟩
  · rw [if_neg (by simpa using hm), Bool.and_eq_true, decide_eq_true_eq, decide_eq_true_eq,
      ← not_le, ← not_le, hge _ _ h.low, hle _ _ h.high, not_le, not_le]
    exact ⟨fun ⟨a, b⟩ => ⟨a.le, b.le, fun _ => ⟨a, b⟩⟩, fun ⟨_, _, hab⟩ => hab (by omega)⟩

/-! ## Decimals in a span -/

theorem ratio_pos (digits : Nat) (e : Int) : 0 < (ratio digits e).2 := by
  unfold ratio
  split
  · exact Nat.one_pos
  · rw [tenTo_eq]
    positivity

theorem ratio_eq (digits : Nat) (e : Int) :
    ((ratio digits e).1 : ℚ) / (ratio digits e).2 = digits * 10 ^ e := by
  unfold ratio
  split
  · next he =>
    obtain ⟨k, rfl⟩ := Int.eq_ofNat_of_zero_le he
    rw [Int.toNat_natCast, tenTo_eq, zpow_natCast]
    push_cast
    rw [div_one]
  · next he =>
    obtain ⟨k, hk⟩ := Int.eq_ofNat_of_zero_le (show 0 ≤ -e by omega)
    have hek : e = -(k : Int) := by omega
    rw [hk, Int.toNat_natCast, tenTo_eq, hek, zpow_neg, zpow_natCast, ← div_eq_mul_inv]
    push_cast
    rfl

/-- The value in units of a power of ten. -/
def inUnits (s : Span) (e : Int) : Nat × Nat :=
  if e ≥ 0 then (s.value, s.den * tenTo e.toNat) else (s.value * tenTo (-e).toNat, s.den)

theorem inUnits_pos {s : Span} (hs : 0 < s.den) (e : Int) : 0 < (inUnits s e).2 := by
  unfold inUnits
  split
  · rw [tenTo_eq]
    positivity
  · exact hs

theorem inUnits_eq {s : Span} (hs : 0 < s.den) (e : Int) :
    ((inUnits s e).1 : ℚ) / (inUnits s e).2 * 10 ^ e = s.value / s.den := by
  have hden : (0 : ℚ) < s.den := by exact_mod_cast hs
  unfold inUnits
  split
  · next he =>
    obtain ⟨k, rfl⟩ := Int.eq_ofNat_of_zero_le he
    rw [Int.toNat_natCast, tenTo_eq, zpow_natCast]
    push_cast
    field_simp
  · next he =>
    obtain ⟨k, hk⟩ := Int.eq_ofNat_of_zero_le (show 0 ≤ -e by omega)
    have hek : e = -(k : Int) := by omega
    rw [hk, Int.toNat_natCast, tenTo_eq, hek, zpow_neg, zpow_natCast]
    push_cast
    field_simp

/-- The whole units are the last ones not above the value. -/
theorem inUnits_floor {s : Span} (hs : 0 < s.den) (e : Int) :
    (((inUnits s e).1 / (inUnits s e).2 : Nat) : ℚ) * 10 ^ e ≤ s.value / s.den ∧
      (s.value / s.den : ℚ) < (((inUnits s e).1 / (inUnits s e).2 : Nat) + 1) * 10 ^ e := by
  have hpos := inUnits_pos hs e
  have hposq : (0 : ℚ) < (inUnits s e).2 := by exact_mod_cast hpos
  have hunit : (0 : ℚ) < 10 ^ e := zpow_pos (by norm_num) _
  obtain ⟨d, hd⟩ : ∃ d, d = (inUnits s e).1 / (inUnits s e).2 := ⟨_, rfl⟩
  have hle : ((d * (inUnits s e).2 : Nat) : ℚ) ≤ (inUnits s e).1 := by
    rw [hd]
    exact_mod_cast Nat.div_mul_le_self _ _
  have hlt : ((inUnits s e).1 : ℚ) < (((d + 1) * (inUnits s e).2 : Nat) : ℚ) := by
    rw [hd]
    exact_mod_cast (Nat.div_lt_iff_lt_mul hpos).mp (Nat.lt_succ_self _)
  push_cast at hle hlt
  rw [← hd, ← inUnits_eq hs e]
  exact ⟨mul_le_mul_of_nonneg_right ((le_div_iff₀ hposq).mpr hle) hunit.le,
    mul_lt_mul_of_pos_right ((div_lt_iff₀ hposq).mpr hlt) hunit⟩

/-- What is found are the digits below the value or the next ones, whichever read back. -/
theorem withDigits?_cases (s : Span) (k : Int) (n : Nat) :
    (∃ d, withDigits? s k n = some (d, k - n) ∧
      s.holds (ratio d (k - n)).1 (ratio d (k - n)).2 = true) ∨
    (withDigits? s k n = none ∧ ∀ d, d = (inUnits s (k - n)).1 / (inUnits s (k - n)).2 ∨
      d = (inUnits s (k - n)).1 / (inUnits s (k - n)).2 + 1 →
      s.holds (ratio d (k - n)).1 (ratio d (k - n)).2 = false) := by
  obtain ⟨v, hv⟩ : ∃ v, v = inUnits s (k - n) := ⟨_, rfl⟩
  unfold withDigits?
  rw [← hv]
  unfold inUnits at hv
  dsimp only
  rw [← hv]
  cases hb : s.holds (ratio (v.1 / v.2) (k - n)).1 (ratio (v.1 / v.2) (k - n)).2 with
  | true =>
    cases ha : s.holds (ratio (v.1 / v.2 + 1) (k - n)).1 (ratio (v.1 / v.2 + 1) (k - n)).2 with
    | true =>
      refine Or.inl ?_
      dsimp only
      split
      · exact ⟨_, rfl, hb⟩
      · split
        · exact ⟨_, rfl, ha⟩
        · split
          · exact ⟨_, rfl, hb⟩
          · exact ⟨_, rfl, ha⟩
    | false => exact Or.inl ⟨_, rfl, hb⟩
  | false =>
    cases ha : s.holds (ratio (v.1 / v.2 + 1) (k - n)).1 (ratio (v.1 / v.2 + 1) (k - n)).2 with
    | true => exact Or.inl ⟨_, rfl, ha⟩
    | false =>
      refine Or.inr ⟨rfl, fun d hd => ?_⟩
      rcases hd with rfl | rfl
      · exact hb
      · exact ha

/-! ## The search -/

theorem magnitudeFrom_le {num den : Nat} (hd : 0 < den) {n : Nat} {k : Int}
    (h : (10 : ℚ) ^ (k - 1) ≤ num / den) :
    (10 : ℚ) ^ (magnitudeFrom num den n k - 1) ≤ num / den := by
  induction n generalizing k with
  | zero => exact h
  | succ n ih =>
    have hden : (0 : ℚ) < den := by exact_mod_cast hd
    unfold magnitudeFrom
    dsimp only
    by_cases hbelow : if k ≥ 0 then num < den * tenTo k.toNat else num * tenTo (-k).toNat < den
    · rw [if_pos hbelow]
      exact h
    · rw [if_neg hbelow]
      refine ih ?_
      rw [add_sub_cancel_right, le_div_iff₀ hden]
      by_cases hk : k ≥ 0
      · rw [if_pos hk] at hbelow
        obtain ⟨j, rfl⟩ := Int.eq_ofNat_of_zero_le hk
        rw [Int.toNat_natCast, tenTo_eq, not_lt, mul_comm] at hbelow
        rw [zpow_natCast]
        exact_mod_cast hbelow
      · rw [if_neg hk] at hbelow
        obtain ⟨j, hj⟩ := Int.eq_ofNat_of_zero_le (show 0 ≤ -k by omega)
        have hkj : k = -(j : Int) := by omega
        rw [hj, Int.toNat_natCast, tenTo_eq, not_lt, mul_comm] at hbelow
        rw [hkj, zpow_neg, zpow_natCast, inv_mul_le_iff₀ (by positivity)]
        exact_mod_cast hbelow

theorem Span.Spans.value_eq {s : Span} {m : Nat} {e : Int} (h : s.Spans m e) :
    (s.value : ℚ) / s.den = m * 2 ^ e := by
  rw [h.value, mul_div_cancel_right₀ _ h.pos.ne']

/-- A number is nearest to itself. -/
theorem near_self (m : Nat) (e : Int) : Near m e (m * 2 ^ e) := by
  have hpow := two_zpow_pos e
  have hreach := reach_pos m e
  refine ⟨?_, ?_, fun _ => ⟨?_, ?_⟩⟩ <;> nlinarith

/-- The first digit of a number stands at its magnitude or above. -/
theorem Span.Spans.magnitude_le {s : Span} {m : Nat} {e : Int} (h : s.Spans m e) (hm : 0 < m)
    (hp : IsPair m e) : (10 : ℚ) ^ (magnitude s.value s.den - 1) ≤ m * 2 ^ e := by
  rw [← h.value_eq]
  refine magnitudeFrom_le (by exact_mod_cast h.pos) ?_
  rw [h.value_eq]
  calc (10 : ℚ) ^ (-400 - 1 : Int) ≤ 10 ^ (-400 : Int) :=
        zpow_le_zpow_right₀ (by norm_num) (by norm_num)
    _ ≤ m * 2 ^ e := ((near_self m e).range hm hp).1.le

/-- Of the multiples around a number of a unit much less than it, one is nearest to it. -/
theorem near_or_near_succ {m : Nat} {e : Int} (hp : IsPair m e) {d : Nat} {u : ℚ} (hu : 0 < u)
    (hunit : u * 10 ^ 16 ≤ m * 2 ^ e) (hbelow : d * u ≤ m * 2 ^ e)
    (habove : m * 2 ^ e < (d + 1) * u) :
    Near m e (d * u) ∨ Near m e ((d + 1) * u) := by
  have hpow := two_zpow_pos e
  have hreach := reach_pos m e
  have hmt : (m : ℚ) * 2 ^ e ≤ (2 ^ 53 - 1) * 2 ^ e := mul_le_mul_of_nonneg_right hp.cast_le hpow.le
  by_cases hd : (m - 1 / 2) * 2 ^ e < d * u ∧ reach m e = 1 / 2
  · refine Or.inl ⟨?_, ?_, fun _ => ⟨?_, ?_⟩⟩
    · rw [hd.2]
      exact hd.1.le
    · linarith
    · rw [hd.2]
      exact hd.1
    · linarith
  · -- the multiple above is within half a unit of the last place
    have hhigh : (d + 1) * u < (m + 1 / 2) * 2 ^ e := by
      by_cases hn : m = leastFull ∧ -1074 < e
      · rw [hn.1, cast_leastFull] at hunit hbelow ⊢
        linarith
      · have hlow : d * u ≤ (m - 1 / 2) * 2 ^ e := not_lt.mp fun h => hd ⟨h, if_neg hn⟩
        linarith
    have hlow : (m - reach m e) * 2 ^ e < (d + 1) * u :=
      lt_trans (mul_lt_mul_of_pos_right (by linarith) hpow) habove
    exact Or.inr ⟨hlow.le, hhigh.le, fun _ => ⟨hlow, hhigh⟩⟩

/-- Seventeen digits reach the span: their unit is less than what is nearest to the number. -/
theorem exists_withDigits?_seventeen {m : Nat} {e : Int} (hm : 0 < m) (hp : IsPair m e) :
    ∃ r, withDigits? (span m e) (magnitude (span m e).value (span m e).den) 17 = some r := by
  have hs := span_spans hm e
  have hden : 0 < (span m e).den := by exact_mod_cast hs.pos
  obtain ⟨k, hk⟩ : ∃ k, k = magnitude (span m e).value (span m e).den := ⟨_, rfl⟩
  -- the unit of the last digit
  obtain ⟨u, hu⟩ : ∃ u : ℚ, u = 10 ^ (k - (17 : Nat)) := ⟨_, rfl⟩
  have hunit : u * 10 ^ 16 ≤ m * 2 ^ e := by
    calc u * 10 ^ 16 = 10 ^ (k - 1) := by
          rw [hu, ← zpow_natCast, ← zpow_add₀ (by norm_num)]
          congr 1
          push_cast
          ring
      _ ≤ m * 2 ^ e := hk ▸ hs.magnitude_le hm hp
  rcases withDigits?_cases (span m e) k 17 with ⟨d, hd, -⟩ | ⟨-, hnone⟩
  · exact ⟨_, hk ▸ hd⟩
  · exfalso
    -- neither the digits below the value nor the next ones are in the span
    have hout : ∀ d : Nat, d = (inUnits (span m e) (k - (17 : Nat))).1 /
          (inUnits (span m e) (k - (17 : Nat))).2 ∨
        d = (inUnits (span m e) (k - (17 : Nat))).1 / (inUnits (span m e) (k - (17 : Nat))).2 + 1 →
        ¬ Near m e (d * u) := by
      intro d hd hnear
      rw [hu, ← ratio_eq, ← hs.holds_iff (ratio_pos _ _), hnone d hd] at hnear
      exact absurd hnear (by simp)
    obtain ⟨hbelow, habove⟩ := inUnits_floor hden (k - (17 : Nat))
    rw [hs.value_eq, ← hu] at hbelow habove
    rcases near_or_near_succ hp (hu ▸ zpow_pos (by norm_num) _) hunit hbelow habove with h | h
    · exact hout _ (Or.inl rfl) h
    · refine hout _ (Or.inr rfl) ?_
      push_cast
      exact h

/-- **The shortest digits of a number read as the number.** -/
theorem shortest_near {m : Nat} {e : Int} (hm : 0 < m) (hp : IsPair m e) :
    0 < (shortest m e).1 ∧ Near m e ((shortest m e).1 * 10 ^ (shortest m e).2) := by
  have hs := span_spans hm e
  obtain ⟨r, hr⟩ := exists_withDigits?_seventeen hm hp
  obtain ⟨k, hk⟩ : ∃ k, k = magnitude (span m e).value (span m e).den := ⟨_, rfl⟩
  rw [← hk] at hr
  -- the search finds digits, which are in the span
  have hfound : ∃ d n, (List.range 17).findSome? (fun n => withDigits? (span m e) k (n + 1)) =
      some (d, n) ∧ (span m e).holds (ratio d n).1 (ratio d n).2 = true := by
    cases hfind : (List.range 17).findSome? fun n => withDigits? (span m e) k (n + 1) with
    | none =>
      have h17 := List.findSome?_eq_none_iff.mp hfind 16 (by decide)
      rw [show 16 + 1 = 17 from rfl, hr] at h17
      exact absurd h17 (by simp)
    | some r =>
      obtain ⟨n, -, hn⟩ := List.exists_of_findSome?_eq_some hfind
      rcases withDigits?_cases (span m e) k (n + 1) with ⟨d, hd, hholds⟩ | ⟨hnone, -⟩
      · rw [hd] at hn
        exact ⟨d, _, by rw [← hn], hholds⟩
      · rw [hnone] at hn
        exact absurd hn (by simp)
  obtain ⟨d, n, hfind, hholds⟩ := hfound
  have hshort : shortest m e = (d, n) := by
    unfold shortest
    dsimp only
    rw [← hk, hfind]
    rfl
  rw [hs.holds_iff (ratio_pos _ _), ratio_eq] at hholds
  rw [hshort]
  refine ⟨Nat.pos_of_ne_zero fun h => ?_, hholds⟩
  -- nothing is nearest to zero but zero
  have hlow := (hholds.range hm hp).1
  rw [show d = 0 from h, Nat.cast_zero, zero_mul] at hlow
  exact absurd hlow (not_lt.mpr (zpow_pos (by norm_num) _).le)

end UberPackage.Decimal
