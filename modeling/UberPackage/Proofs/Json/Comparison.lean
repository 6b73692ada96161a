/-
  Equality of values is transitive.

  A number is a ratio or an infinity (`Numeral.same_iff`), so equality of numbers is transitive
  whatever their kinds; and so is equality of documents, item by item and field by field
  (`Json.same_trans`).

  So setting a key of a mapping, whatever value it is, changes what is looked up for a text only if
  the key is that text (`Mapping.get?_set_str`).
-/
import UberPackage.Proofs.Json.TextKeys

namespace UberPackage

namespace Binary64

/-- A ratio has no zero below. -/
theorem ratio?_pos {x : Binary64} {r : Int × Nat} (h : x.ratio? = some r) : 0 < r.2 := by
  cases x with
  | finite negative m e =>
    rw [← Option.some.inj h]
    show 0 < (scale m 1 e).2
    rw [scale]
    split
    · exact Nat.one_pos
    · rw [Nat.one_shiftLeft]
      exact Nat.two_pow_pos _
  | _ => cases h

theorem eqInt_iff {x : Binary64} {i : Int} :
    x.eqInt i = true ↔ ∃ r, x.ratio? = some r ∧ r.1 = i * r.2 := by
  rw [eqInt]
  cases x.ratio? <;> simp

theorem eq_iff {x y : Binary64} : x.eq y = true ↔
    (∃ a b, x.ratio? = some a ∧ y.ratio? = some b ∧ a.1 * b.2 = b.1 * a.2) ∨
      ∃ negative, x = infinity negative ∧ y = infinity negative := by
  cases x with
  | nan => simp [eq, ratio?]
  | infinity a =>
    cases y with
    | infinity b => simp [eq, ratio?, eq_comm (a := b)]
    | _ => simp [eq, ratio?]
  | finite a m e =>
    cases y with
    | finite b m' e' =>
      rw [eq]
      · cases (finite a m e).ratio? <;> cases (finite b m' e').ratio? <;> simp
      all_goals nofun
    | _ => simp [eq, ratio?]

end Binary64

namespace Json

/-! ## Numbers -/

namespace Numeral

/-- The exact value of a number that is not infinite or missing. -/
def ratio? : Numeral → Option (Int × Nat)
  | whole i => some (i, 1)
  | real x => x.ratio?

theorem ratio?_pos {n : Numeral} {r : Int × Nat} (h : n.ratio? = some r) : 0 < r.2 := by
  cases n with
  | whole i =>
    rw [← Option.some.inj h]
    exact Nat.one_pos
  | real x => exact Binary64.ratio?_pos h

/-- Numbers are equal as ratios, or the same infinity. -/
theorem same_iff {m n : Numeral} : m.same n = true ↔
    (∃ a b, m.ratio? = some a ∧ n.ratio? = some b ∧ a.1 * b.2 = b.1 * a.2) ∨
      ∃ negative, m = real (.infinity negative) ∧ n = real (.infinity negative) := by
  cases m with
  | whole i =>
    cases n with
    | whole j => simp [same, ratio?]
    | real y => simp [same, ratio?, Binary64.eqInt_iff, eq_comm (a := i * _)]
  | real x =>
    cases n with
    | whole j => simp [same, ratio?, Binary64.eqInt_iff]
    | real y => simp [same, ratio?, Binary64.eq_iff]

theorem same_trans {l m n : Numeral} (h : l.same m = true) (h' : m.same n = true) :
    l.same n = true := by
  rw [same_iff] at h h' ⊢
  rcases h with ⟨a, b, ha, hb, hab⟩ | ⟨negative, rfl, rfl⟩
  · rcases h' with ⟨b', c, hb', hc, hbc⟩ | ⟨negative, rfl, rfl⟩
    · obtain rfl := Option.some.inj (hb.symm.trans hb')
      have hne : (b.2 : Int) ≠ 0 := Int.natCast_ne_zero.mpr (Nat.ne_of_gt (ratio?_pos hb))
      refine Or.inl ⟨a, c, ha, hc, Int.eq_of_mul_eq_mul_right hne ?_⟩
      calc a.1 * c.2 * b.2 = a.1 * b.2 * c.2 := Int.mul_right_comm _ _ _
        _ = b.1 * c.2 * a.2 := by rw [hab, Int.mul_right_comm]
        _ = c.1 * a.2 * b.2 := by rw [hbc, Int.mul_right_comm]
    · cases hb
  · rcases h' with ⟨b', c, hb', hc, hbc⟩ | ⟨negative', hn, rfl⟩
    · cases hb'
    · exact Or.inr ⟨negative, rfl, hn.symm⟩

end Numeral

/-! ## Documents -/

/-- A number is compared as a number. -/
theorem same_of_numeral {v : Json} {n : Numeral} (h : v.numeral? = some n) (w : Json) :
    v.same w = sameNumeral n w := by
  cases v with
  | bool b => rw [← Option.some.inj h, same]
  | int i => rw [← Option.some.inj h, same]
  | float x => rw [← Option.some.inj h, same]
  | _ => cases h

theorem sameNumeral_iff {n : Numeral} {v : Json} :
    sameNumeral n v = true ↔ ∃ m, v.numeral? = some m ∧ n.same m = true := by
  rw [sameNumeral]
  cases v.numeral? <;> simp

theorem sameNumeral_trans {n : Numeral} {v w : Json} (h : sameNumeral n v = true)
    (h' : v.same w = true) : sameNumeral n w = true := by
  obtain ⟨m, hm, hnm⟩ := sameNumeral_iff.mp h
  rw [same_of_numeral hm] at h'
  obtain ⟨k, hk, hmk⟩ := sameNumeral_iff.mp h'
  exact sameNumeral_iff.mpr ⟨k, hk, Numeral.same_trans hnm hmk⟩

theorem sameFields_cons {key : Text} {v : Json} {fs gs : Fields} :
    sameFields ((key, v) :: fs) gs = true ↔
      (∃ w, gs.get? key = some w ∧ v.same w = true) ∧ sameFields fs gs = true := by
  rw [sameFields, Bool.and_eq_true]
  cases gs.get? key <;> simp

theorem get?_of_sameFields {fs gs : Fields} (h : sameFields fs gs = true) {key : Text} {v : Json}
    (hv : fs.get? key = some v) : ∃ w, gs.get? key = some w ∧ v.same w = true := by
  induction fs with
  | nil => cases hv
  | cons f fs ih =>
    obtain ⟨k, u⟩ := f
    obtain ⟨hfirst, hrest⟩ := sameFields_cons.mp h
    rw [Fields.get?] at hv
    split at hv
    · next hk =>
      rw [← hk, ← Option.some.inj hv]
      exact hfirst
    · exact ih hrest hv

mutual
theorem same_trans : ∀ {u v w : Json}, u.same v = true → v.same w = true → u.same w = true
  | bool _, _, _, h, h' => by
    rw [same] at h ⊢
    exact sameNumeral_trans h h'
  | int _, _, _, h, h' => by
    rw [same] at h ⊢
    exact sameNumeral_trans h h'
  | float _, _, _, h, h' => by
    rw [same] at h ⊢
    exact sameNumeral_trans h h'
  | null, v, w, h, h' => by
    cases v with
    | null => exact h'
    | _ => simp [same] at h
  | str s, v, w, h, h' => by
    cases v with
    | str t =>
      rw [same_str, beq_iff_eq] at h
      rwa [h]
    | _ => simp [same] at h
  | arr us, v, w, h, h' => by
    cases v with
    | arr vs =>
      cases w with
      | arr ws =>
        rw [same] at h h' ⊢
        exact sameItems_trans h h'
      | _ => simp [same] at h'
    | _ => simp [same] at h
  | obj fs, v, w, h, h' => by
    cases v with
    | obj gs =>
      cases w with
      | obj hs =>
        rw [same, Bool.and_eq_true, beq_iff_eq] at h h' ⊢
        exact ⟨h.1.trans h'.1, sameFields_trans h.2 h'.2⟩
      | _ => simp [same] at h'
    | _ => simp [same] at h
theorem sameItems_trans :
    ∀ {us vs ws : List Json}, sameItems us vs = true → sameItems vs ws = true →
    sameItems us ws = true
  | [], [], _, _, h' => h'
  | u :: us, v :: vs, w :: ws, h, h' => by
    rw [sameItems, Bool.and_eq_true] at h h' ⊢
    exact ⟨same_trans h.1 h'.1, sameItems_trans h.2 h'.2⟩
theorem sameFields_trans : ∀ {fs gs hs : List (Text × Json)}, sameFields fs gs = true →
    sameFields gs hs = true → sameFields fs hs = true
  | [], _, _, _, _ => by rw [sameFields]
  | (key, u) :: fs, gs, hs, h, h' => by
    obtain ⟨⟨v, hv, huv⟩, hrest⟩ := sameFields_cons.mp h
    obtain ⟨w, hw, hvw⟩ := get?_of_sameFields h' hv
    exact sameFields_cons.mpr ⟨⟨w, hw, same_trans huv hvw⟩, sameFields_trans hrest h'⟩
end

theorem eq_str_of_same {v : Json} {t : Text} (h : (str t).same v = true) : v = str t := by
  cases v with
  | str s => rw [same_str, beq_iff_eq] at h; rw [h]
  | _ => simp [same] at h

theorem eq_null_of_same {v : Json} (h : v.same null = true) : v = null := by
  cases v <;> simp [same, sameNumeral, numeral?] at h ⊢

end Json

namespace Mapping

/-- Setting a key changes what is looked up for a text if the key is that text. -/
theorem get?_set_str (key value : Json) (t : Text) (m : Mapping) :
    (m.set key value).get? (.str t) = if key.same (.str t) then some value
      else m.get? (.str t) := by
  induction m with
  | nil => simp only [set, get?]
  | cons e m ih =>
    obtain ⟨k, v⟩ := e
    cases hk : k.same key with
    | false =>
      cases ht : k.same (.str t) with
      | false => simp only [set, hk, Bool.false_eq_true, if_false, get?, ht, ih]
      | true =>
        have hkey : key.same (.str t) = false := by
          refine Bool.eq_false_iff.mpr fun h => ?_
          rw [Json.eq_of_same_str ht, Json.eq_of_same_str h, Json.same_str, beq_self_eq_true] at hk
          cases hk
        simp only [set, hk, Bool.false_eq_true, if_false, get?, ht, if_true, hkey]
    | true =>
      have ht : k.same (.str t) = key.same (.str t) := by
        rw [Bool.eq_iff_iff]
        refine ⟨fun h => ?_, Json.same_trans hk⟩
        rw [Json.eq_of_same_str h] at hk
        rw [Json.eq_str_of_same hk, Json.same_str, beq_self_eq_true]
      simp only [set, hk, if_true, get?, ht]
      split <;> rfl

end Mapping

end UberPackage
