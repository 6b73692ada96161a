/-
  Looking up places on a disk.

  Every change of a disk comes down to putting, dropping and dropping a tree; each has one lemma
  that says what stands where afterwards (`entryAt?_put`, `entryAt?_drop`, `entryAt?_dropTree`).
  Where no place stands twice (`Disk.Distinct`), the names in a directory are told by the
  lookups and differ.
-/
import Mathlib.Data.List.Basic
import Mathlib.Data.List.Nodup
import UberPackage.Disk
import UberPackage.Proofs.Text.Order

namespace UberPackage

/-- The entry is a file. -/
def Entry.isFile : Entry → Bool
  | file _ => true
  | dir => false

namespace Disk

/-- No place stands twice among the entries. -/
def Distinct (d : Disk) : Prop := (d.entries.map Prod.fst).Nodup

instance (d : Disk) : Decidable d.Distinct := inferInstanceAs (Decidable (List.Nodup _))

theorem entryAt?_top (d : Disk) : d.entryAt? [] = some .dir := if_pos rfl

/-- The top is not free. -/
theorem ne_nil_of_free {d : Disk} {q : Place} (h : d.entryAt? q = none) : q ≠ [] := by
  rintro rfl
  rw [entryAt?_top] at h
  cases h

theorem entryAt?_of_ne {d : Disk} {q : Place} (h : q ≠ []) : d.entryAt? q = d.entries.lookup q :=
  if_neg h

theorem lookup_filter {es : List (Place × Entry)} (keep : Place → Bool) (q : Place) :
    (es.filter fun x => keep x.1).lookup q = if keep q then es.lookup q else none := by
  induction es with
  | nil => simp
  | cons e es ih =>
    obtain ⟨k, v⟩ := e
    rw [List.filter_cons, List.lookup_cons]
    by_cases hq : q = k
    · subst hq
      cases hk : keep q with
      | true => simp
      | false => simpa [hk] using ih
    · have hb : (q == k) = false := by simpa using hq
      cases hk : keep k with
      | true => simpa [hk, List.lookup_cons, hb] using ih
      | false => simpa [hk, hb] using ih

theorem mem_keys_iff {es : List (Place × Entry)} {q : Place} :
    q ∈ es.map Prod.fst ↔ (es.lookup q).isSome = true := by
  induction es with
  | nil => simp
  | cons e es ih =>
    obtain ⟨k, v⟩ := e
    rw [List.map_cons, List.mem_cons, List.lookup_cons, ih]
    by_cases hq : q = k
    · simp [hq]
    · have hb : (q == k) = false := by simpa using hq
      simp [hq, hb]

theorem entryAt?_put {d : Disk} {p : Place} (e : Entry) (hp : p ≠ []) (q : Place) :
    (d.put p e).entryAt? q = if q = p then some e else d.entryAt? q := by
  by_cases hq : q = []
  · subst hq
    rw [entryAt?_top, entryAt?_top, if_neg (Ne.symm hp)]
  · rw [entryAt?_of_ne hq, entryAt?_of_ne hq, put, List.lookup_append,
      lookup_filter (fun k => k != p)]
    by_cases hqp : q = p
    · subst hqp
      simp
    · have hb : (q == p) = false := by simpa using hqp
      simp [hqp, List.lookup_cons, hb]

theorem entryAt?_drop (d : Disk) (p q : Place) :
    (d.drop p).entryAt? q = if q = p ∧ p ≠ [] then none else d.entryAt? q := by
  by_cases hq : q = []
  · subst hq
    rw [entryAt?_top, entryAt?_top, if_neg fun h => h.2 h.1.symm]
  · rw [entryAt?_of_ne hq, entryAt?_of_ne hq, drop, lookup_filter (fun k => k != p)]
    by_cases hqp : q = p
    · subst hqp
      simp [hq]
    · simp [hqp]

theorem entryAt?_dropTree (d : Disk) (p q : Place) :
    (d.dropTree p).entryAt? q = if p <+: q ∧ q ≠ [] then none else d.entryAt? q := by
  by_cases hq : q = []
  · subst hq
    rw [entryAt?_top, entryAt?_top, if_neg fun h => h.2 rfl]
  · rw [entryAt?_of_ne hq, entryAt?_of_ne hq, dropTree, lookup_filter (fun k => !p.isPrefixOf k)]
    by_cases hpq : p <+: q
    · have hb : p.isPrefixOf q = true := List.isPrefixOf_iff_prefix.mpr hpq
      simp [hb, hpq, hq]
    · have hb : p.isPrefixOf q = false := by
        rw [Bool.eq_false_iff, ne_eq, List.isPrefixOf_iff_prefix]
        exact hpq
      simp [hb, hpq]

theorem Distinct.put {d : Disk} (h : d.Distinct) (p : Place) (e : Entry) :
    (d.put p e).Distinct := by
  rw [Distinct, Disk.put, List.map_append, List.map_cons, List.map_nil, List.nodup_append]
  refine ⟨h.sublist (List.filter_sublist.map _), List.nodup_singleton _, ?_⟩
  intro a ha b hb
  rw [List.mem_singleton] at hb
  subst hb
  obtain ⟨x, hx, rfl⟩ := List.mem_map.mp ha
  simpa using (List.mem_filter.mp hx).2

theorem Distinct.drop {d : Disk} (h : d.Distinct) (p : Place) : (d.drop p).Distinct :=
  h.sublist (List.filter_sublist.map _)

theorem Distinct.dropTree {d : Disk} (h : d.Distinct) (p : Place) : (d.dropTree p).Distinct :=
  h.sublist (List.filter_sublist.map _)

/-! ## Names in a directory -/

/-- The name of an entry in a directory, if it stands there. -/
def nameIn? (p q : Place) : Option Text :=
  q.getLast?.bind fun name => if q.dropLast = p then some name else none

theorem nameIn?_eq_some {p q : Place} {n : Text} : nameIn? p q = some n ↔ q = p ++ [n] := by
  rw [nameIn?, Option.bind_eq_some_iff]
  constructor
  · rintro ⟨m, hm, h⟩
    split at h
    · next hp =>
      obtain ⟨y, hy⟩ := List.getLast?_eq_some_iff.mp hm
      rw [← hp, ← Option.some.inj h, hy, List.dropLast_concat]
    · exact absurd h (by simp)
  · rintro rfl
    exact ⟨n, List.getLast?_concat, by rw [List.dropLast_concat, if_pos rfl]⟩

theorem namesIn_eq (d : Disk) (p : Place) :
    d.namesIn p = Text.sort ((d.entries.map Prod.fst).filterMap (nameIn? p)) := by
  rw [namesIn, List.filterMap_map]
  refine congrArg Text.sort (List.filterMap_congr fun x _ => ?_)
  obtain ⟨q, e⟩ := x
  dsimp only [Function.comp_apply, nameIn?]
  cases q.getLast? with
  | none => rfl
  | some n => rfl

theorem mem_namesIn {d : Disk} {p : Place} {n : Text} :
    n ∈ d.namesIn p ↔ (d.entryAt? (p ++ [n])).isSome = true := by
  have hne : p ++ [n] ≠ [] := List.append_ne_nil_of_right_ne_nil _ (List.cons_ne_nil _ _)
  rw [namesIn_eq, Text.mem_sort, List.mem_filterMap, entryAt?_of_ne hne, ← mem_keys_iff]
  simp only [nameIn?_eq_some, exists_eq_right]

theorem nodup_namesIn {d : Disk} (h : d.Distinct) (p : Place) : (d.namesIn p).Nodup := by
  rw [namesIn_eq, (Text.sort_perm _).nodup_iff]
  refine h.filterMap fun q q' n hq hq' => ?_
  rw [nameIn?_eq_some.mp hq, nameIn?_eq_some.mp hq']

/-- The names in a directory are in strict order. -/
theorem ascending_namesIn {d : Disk} (h : d.Distinct) (p : Place) :
    (d.namesIn p).Pairwise fun m n => Text.lt m n = true := by
  refine ((Text.sorted_sort _).and (nodup_namesIn h p)).imp fun hmn => ?_
  rw [Text.lt, Bool.and_eq_true]
  exact ⟨hmn.1, bne_iff_ne.mpr hmn.2⟩

end Disk

end UberPackage
