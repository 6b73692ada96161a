/-
  Names and fields that have been joined and sorted.

  Joining adds what is not there yet, so its outcome depends on what the others are and not on their
  order (`Text.union_perm`).  Names that have been joined, sorted and pruned stay as they are when
  that is done again (`Text.merge_again`), and so do fields (`Fields.merge_again`).
-/
import UberPackage.Proofs.Dependency.Correction
import UberPackage.Proofs.Json.Sorting

namespace UberPackage

/-! ## Names -/

namespace Text

theorem filter_sort (p : Text → Bool) (ts : List Text) : (sort ts).filter p = sort (ts.filter p) :=
  (sort_of_perm ((sort_perm ts).symm.filter p) ((sorted_sort ts).filter p)).symm

theorem union_cons (ts : List Text) (o : Text) (others : List Text) :
    union ts (o :: others) = union (if o ∈ ts then ts else ts ++ [o]) others := rfl

/-- Others that are not there yet are added once. -/
theorem count_union (ts others : List Text) (t : Text) :
    (union ts others).count t = if t ∈ ts then ts.count t else if t ∈ others then 1 else 0 := by
  induction others generalizing ts with
  | nil =>
    by_cases ht : t ∈ ts
    · simp [union, ht]
    · simp [union, ht, List.count_eq_zero_of_not_mem ht]
  | cons o others ih =>
    rw [union_cons, ih]
    by_cases ho : o ∈ ts
    · have hne : t ∉ ts → t ≠ o := fun ht h => ht (h ▸ ho)
      by_cases ht : t ∈ ts
      · simp [ho, ht]
      · simp [ho, ht, hne ht]
    · by_cases hto : t = o
      · subst hto
        simp [ho, List.count_eq_zero_of_not_mem ho]
      · by_cases ht : t ∈ ts
        · simp [ho, ht, Ne.symm hto]
        · simp [ho, ht, hto]

/-- What is joined depends on what the others are, not on their order. -/
theorem union_perm (ts : List Text) {others others' : List Text}
    (h : ∀ t, t ∈ others ↔ t ∈ others') :
    (union ts others).Perm (union ts others') := by
  refine List.perm_iff_count.mpr fun t => ?_
  simp only [count_union, h t]

theorem union_of_subset {ts others : List Text} (h : ∀ t ∈ others, t ∈ ts) :
    union ts others = ts := by
  induction others with
  | nil => rfl
  | cons o others ih =>
    rw [union_cons, if_pos (h o List.mem_cons_self)]
    exact ih fun t ht => h t (List.mem_cons_of_mem _ ht)

theorem filter_union (p : Text → Bool) (ts others : List Text) :
    (union ts others).filter p = union (ts.filter p) (others.filter p) := by
  induction others generalizing ts with
  | nil => rfl
  | cons o others ih =>
    rw [union_cons, ih]
    cases hp : p o with
    | false =>
      rw [List.filter_cons_of_neg (by simp [hp])]
      congr 1
      split
      · rfl
      · simp [List.filter_append, hp]
    | true =>
      rw [List.filter_cons_of_pos hp, union_cons]
      congr 1
      by_cases ho : o ∈ ts
      · simp [ho, hp]
      · simp [ho, hp, List.filter_append]

/-- Names joined with others, sorted and pruned. -/
def merge (ts others pruned : List Text) : List Text :=
  (sort (union ts others)).filter fun t => !pruned.contains t

/-- Names that have been merged with others are not changed by merging them again. -/
theorem merge_again (ts others pruned : List Text) :
    merge (merge ts others pruned) others pruned = merge ts others pruned := by
  have hpruned :
      (merge ts others pruned).filter (fun t => !pruned.contains t) = merge ts others pruned := by
    rw [merge, List.filter_filter]
    simp only [Bool.and_self]
  have hothers : ∀ t ∈ others.filter (fun t => !pruned.contains t), t ∈ merge ts others pruned := by
    intro t ht
    obtain ⟨ho, hp⟩ := List.mem_filter.mp ht
    exact List.mem_filter.mpr ⟨mem_sort.mpr (mem_union.mpr (Or.inr ho)), hp⟩
  have hsorted : (merge ts others pruned).Pairwise fun s t => le s t = true :=
    (sorted_sort _).sublist List.filter_sublist
  calc merge (merge ts others pruned) others pruned
      = sort (union ((merge ts others pruned).filter fun t => !pruned.contains t)
          (others.filter fun t => !pruned.contains t)) := by rw [merge, filter_sort, filter_union]
    _ = sort (merge ts others pruned) := by rw [hpruned, union_of_subset hothers]
    _ = merge ts others pruned := sort_of_sorted hsorted

end Text

/-! ## Fields -/

namespace Fields

theorem NoneHidden.eraseAll {fs : Fields} (h : fs.NoneHidden) (pruned : List Text) :
    (fs.eraseAll pruned).NoneHidden := by
  intro f hf
  obtain ⟨hf, hp⟩ := List.mem_filter.mp hf
  rw [get?_eraseAll, if_neg (by simpa using hp), h f hf]

/-- The names of fields with others set in them. -/
theorem keys_update (fs others : Fields) :
    (fs.update others).keys = Text.union fs.keys others.keys := by
  induction others generalizing fs with
  | nil => rfl
  | cons f others ih =>
    have h := ih (fs.set f.1 f.2)
    rw [keys_set] at h
    exact h

theorem keys_eraseAll (fs : Fields) (pruned : List Text) :
    (fs.eraseAll pruned).keys = fs.keys.filter fun k => !pruned.contains k := by
  rw [keys, keys, eraseAll, List.filter_map]
  rfl

/-- The fields with others set in them, sorted and pruned. -/
def merge (fs others : Fields) (pruned : List Text) : Fields :=
  (fs.update others).sorted.eraseAll pruned

theorem keys_merge (fs others : Fields) (pruned : List Text) :
    (fs.merge others pruned).keys = Text.merge fs.keys others.keys pruned := by
  rw [merge, keys_eraseAll, keys_sorted, keys_update, Text.merge]

theorem get?_merge (fs others : Fields) (pruned : List Text) (k : Text) :
    (fs.merge others pruned).get? k = if k ∈ pruned then none
      else (get? k others.reverse).or (fs.get? k) := by
  rw [merge, get?_eraseAll, get?_sorted, get?_update]

theorem noneHidden_merge (fs others : Fields) (pruned : List Text) :
    (fs.merge others pruned).NoneHidden :=
  (noneHidden_sorted _).eraseAll pruned

/-- Fields that have been merged with others are not changed by merging them again. -/
theorem merge_again (fs others : Fields) (pruned : List Text) :
    (fs.merge others pruned).merge others pruned = fs.merge others pruned := by
  refine ext_of_noneHidden (noneHidden_merge _ _ _) (noneHidden_merge _ _ _) ?_ fun k => ?_
  · rw [keys_merge, keys_merge, Text.merge_again]
  · rw [get?_merge, get?_merge]
    split
    · rfl
    · cases get? k others.reverse <;> rfl

end Fields

end UberPackage
