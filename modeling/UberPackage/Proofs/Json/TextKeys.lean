/-
  Mappings whose keys are texts.

  The mapping of an object has texts for keys.  On such a mapping look-up, setting, erasing,
  joining and sorting do what they do to the fields of the object (`Mapping.get?_ofFields` and
  the lemmas after it), so all that follows is about fields.

  `Fields.get?_set`, `Fields.get?_update` and `Fields.get?_sorted` say what can be looked up after
  each of them.
-/
import UberPackage.Json.Lenient
import UberPackage.Proofs.Text.Order
import Mathlib.Data.List.Nodup

namespace UberPackage

/-! ## Fields -/

namespace Fields

/-- The fields without one. -/
def erase (key : Text) (fs : Fields) : Fields := fs.filter fun f => !f.1 == key

/-- The fields with others set in them, one after the other. -/
def update (fs others : Fields) : Fields := others.foldl (fun fs f => fs.set f.1 f.2) fs

/-- The fields in order of name. -/
def sorted (fs : Fields) : Fields :=
  (Text.sort fs.keys).filterMap fun k => (fs.get? k).map (k, ·)

theorem get?_set (key other : Text) (value : Json) (fs : Fields) :
    get? other (set key value fs) = if other = key then some value else get? other fs := by
  by_cases h : other = key
  · rw [if_pos h, h, get?_set_self]
  · rw [if_neg h, get?_set_of_ne h]

theorem get?_append (key : Text) (fs gs : Fields) :
    get? key (fs ++ gs) = (get? key fs).or (get? key gs) := by
  induction fs with
  | nil => rfl
  | cons f fs ih =>
    obtain ⟨k, v⟩ := f
    rw [List.cons_append, get?, get?]
    split
    · rfl
    · exact ih

theorem get?_eq_none_iff {key : Text} {fs : Fields} : get? key fs = none ↔ key ∉ fs.keys := by
  induction fs with
  | nil => simp [get?, keys]
  | cons f fs ih =>
    obtain ⟨k, v⟩ := f
    rw [get?]
    by_cases h : k = key
    · simp [h, keys]
    · rw [if_neg h, ih]
      simp [keys, Ne.symm h]

theorem mem_of_get? {key : Text} {value : Json} {fs : Fields} (h : get? key fs = some value) :
    (key, value) ∈ fs := by
  induction fs with
  | nil => exact absurd h (by simp [get?])
  | cons f fs ih =>
    obtain ⟨k, v⟩ := f
    rw [get?] at h
    split at h
    · next hk =>
      rw [← hk, ← Option.some.inj h]
      exact List.mem_cons_self
    · exact List.mem_cons_of_mem _ (ih h)

/-- A field that has one value wherever it stands has that value. -/
theorem get?_of_mem {key : Text} {value : Json} {fs : Fields} (h : (key, value) ∈ fs)
    (hu : ∀ v, (key, v) ∈ fs → v = value) : get? key fs = some value := by
  cases hg : get? key fs with
  | none =>
    have hk : key ∈ fs.keys := List.mem_map.mpr ⟨_, h, rfl⟩
    exact absurd hk (get?_eq_none_iff.mp hg)
  | some v => rw [hu v (mem_of_get? hg)]

theorem get?_of_mem_of_nodup {key : Text} {value : Json} {fs : Fields} (hn : fs.keys.Nodup)
    (h : (key, value) ∈ fs) : get? key fs = some value := by
  refine get?_of_mem h fun v hv => ?_
  have := List.inj_on_of_nodup_map hn hv h rfl
  exact congrArg Prod.snd this

theorem mem_set {key : Text} {value : Json} {fs : Fields} {f : Text × Json}
    (h : f ∈ set key value fs) : f = (key, value) ∨ f ∈ fs := by
  induction fs with
  | nil => exact Or.inl (List.mem_singleton.mp h)
  | cons g fs ih =>
    obtain ⟨k, v⟩ := g
    rw [set] at h
    split at h
    · next hk =>
      rcases List.mem_cons.mp h with h | h
      · exact Or.inl (by rw [h, hk])
      · exact Or.inr (List.mem_cons_of_mem _ h)
    · rcases List.mem_cons.mp h with h | h
      · exact Or.inr (List.mem_cons.mpr (Or.inl h))
      · exact (ih h).imp_right (List.mem_cons_of_mem _)

theorem keys_cons (f : Text × Json) (fs : Fields) : keys (f :: fs) = f.1 :: fs.keys := rfl

/-- A field that is set has its place or goes to the end. -/
theorem keys_set (key : Text) (value : Json) (fs : Fields) :
    (fs.set key value).keys = if key ∈ fs.keys then fs.keys else fs.keys ++ [key] := by
  induction fs with
  | nil => rfl
  | cons f fs ih =>
    obtain ⟨k, v⟩ := f
    rw [set, keys_cons]
    by_cases hk : k = key
    · rw [if_pos hk, if_pos (hk ▸ List.mem_cons_self)]
      rfl
    · have hm : key ∈ k :: keys fs ↔ key ∈ keys fs := by
        rw [List.mem_cons, or_iff_right (Ne.symm hk)]
      rw [if_neg hk, keys_cons, ih]
      simp only [hm]
      split <;> rfl

theorem nodup_keys_set {key : Text} {value : Json} {fs : Fields} (h : fs.keys.Nodup) :
    (set key value fs).keys.Nodup := by
  rw [keys_set]
  split
  · exact h
  · next hkey => exact List.concat_eq_append ▸ h.concat hkey

theorem get?_update (key : Text) (fs others : Fields) :
    get? key (fs.update others) = (get? key others.reverse).or (get? key fs) := by
  induction others generalizing fs with
  | nil => rfl
  | cons f others ih =>
    obtain ⟨k, v⟩ := f
    have h := ih (fs.set k v)
    rw [update, List.foldl_cons, ← update, h, List.reverse_cons, get?_append, get?_set,
      Option.or_assoc]
    congr 1
    by_cases hk : k = key
    · simp [get?, hk]
    · simp [get?, hk, Ne.symm hk]

theorem get?_filterMap_mem (ks : List Text) (fs : Fields) (key : Text) :
    get? key (ks.filterMap fun k => (fs.get? k).map (k, ·)) =
      if key ∈ ks then get? key fs else none := by
  induction ks with
  | nil => rfl
  | cons k ks ih =>
    rw [List.filterMap_cons]
    cases hk : fs.get? k with
    | none =>
      simp only [Option.map_none, ih, List.mem_cons]
      by_cases h : key = k
      · subst h
        simp [hk]
      · simp [h]
    | some v =>
      simp only [Option.map_some, get?, ih, List.mem_cons]
      by_cases h : key = k
      · subst h
        simp [hk]
      · simp [h, Ne.symm h]

/-- Sorting moves fields and loses none. -/
theorem get?_sorted (fs : Fields) (key : Text) : get? key fs.sorted = get? key fs := by
  rw [sorted, get?_filterMap_mem]
  split
  · rfl
  · next h =>
    rw [Text.mem_sort] at h
    exact (get?_eq_none_iff.mpr h).symm

end Fields

/-! ## Texts among documents -/

namespace Json

/-- The document is a text. -/
def isText : Json → Bool
  | str _ => true
  | _ => false

theorem isText_iff {v : Json} : v.isText = true ↔ ∃ t, v = str t := by
  cases v <;> simp [isText]

@[simp] theorem same_str (s t : Text) : (str s).same (str t) = (s == t) := by
  simp [same]

theorem eq_of_same_str {v : Json} {t : Text} (h : v.same (str t) = true) : v = str t := by
  cases v with
  | str s => rw [same_str, beq_iff_eq] at h; rw [h]
  | null => simp [same] at h
  | bool b => simp [same, sameNumeral, numeral?] at h
  | int i => simp [same, sameNumeral, numeral?] at h
  | float x => simp [same, sameNumeral, numeral?] at h
  | arr vs => simp [same] at h
  | obj fs => simp [same] at h

theorem isIn_map_str (t : Text) (ts : List Text) : (str t).isIn (ts.map str) = decide (t ∈ ts) := by
  induction ts with
  | nil => rfl
  | cons s ts ih =>
    rw [isIn] at ih ⊢
    rw [List.map_cons, List.any_cons, ih, same_str]
    by_cases h : s = t
    · simp [h]
    · have hb : (s == t) = false := by simpa using h
      simp [hb, Ne.symm h]

theorem less?_str (s t : Text) : less? (str s) (str t) = some (s.lt t) := by
  simp [less?]

theorem allOrdered_map_str (ts : List Text) : allOrdered (ts.map str) = true := by
  induction ts with
  | nil => rfl
  | cons t ts ih => simp [allOrdered, ih, less?_str]

/-- Texts are sorted by code point. -/
theorem sort?_map_str (ts : List Text) : sort? (ts.map str) = some ((Text.sort ts).map str) := by
  rw [sort?, if_pos (allOrdered_map_str ts), Text.sort,
    List.map_mergeSort (s := fun v w => less? w v != some true)]
  intro s _ t _
  rw [less?_str, ← Text.not_lt]
  cases Text.lt t s <;> rfl

end Json

/-! ## Mappings of objects -/

namespace Mapping

@[simp] theorem ofFields_nil : ofFields [] = [] := rfl

@[simp] theorem ofFields_cons (f : Text × Json) (fs : Fields) :
    ofFields (f :: fs) = (.str f.1, f.2) :: ofFields fs := rfl

theorem get?_ofFields (key : Text) (fs : Fields) :
    (ofFields fs).get? (.str key) = fs.get? key := by
  induction fs with
  | nil => rfl
  | cons f fs ih => simp [get?, Fields.get?, ih]

theorem set_ofFields (key : Text) (value : Json) (fs : Fields) :
    (ofFields fs).set (.str key) value = ofFields (fs.set key value) := by
  induction fs with
  | nil => rfl
  | cons f fs ih =>
    by_cases h : f.1 = key <;> simp [set, Fields.set, ih, h]

theorem erase_ofFields (key : Text) (fs : Fields) :
    (ofFields fs).erase (.str key) = ofFields (fs.erase key) := by
  simp only [erase, Fields.erase, ofFields, List.filter_map, Function.comp_def, Json.same_str]

theorem update_ofFields (fs gs : Fields) :
    (ofFields fs).update (ofFields gs) = ofFields (fs.update gs) := by
  induction gs generalizing fs with
  | nil => rfl
  | cons g gs ih =>
    have h := ih (fs.set g.1 g.2)
    rw [update, Fields.update] at h ⊢
    rw [ofFields_cons, List.foldl_cons, List.foldl_cons, ← h, ← set_ofFields]

theorem sort?_ofFields (fs : Fields) : (ofFields fs).sort? = some (ofFields fs.sorted) := by
  have hk : (ofFields fs).map Prod.fst = fs.keys.map Json.str := by
    simp [ofFields, Fields.keys]
  rw [sort?, hk, Json.sort?_map_str]
  simp only [ofFields, Fields.sorted, Option.bind_eq_bind, Option.bind_some, List.filterMap_map,
    List.map_filterMap]
  refine congrArg some (List.filterMap_congr fun k _ => ?_)
  have := get?_ofFields k fs
  simp only [ofFields] at this
  cases h : fs.get? k <;> simp [this, h]

/-- A mapping whose keys are texts is that of an object. -/
theorem exists_ofFields {m : Mapping} (h : ∀ e ∈ m, e.1.isText = true) :
    ∃ fs : Fields, m = ofFields fs := by
  induction m with
  | nil => exact ⟨[], rfl⟩
  | cons e m ih =>
    obtain ⟨fs, rfl⟩ := ih fun e' hm => h e' (List.mem_cons_of_mem _ hm)
    obtain ⟨t, ht⟩ := Json.isText_iff.mp (h e List.mem_cons_self)
    exact ⟨(t, e.2) :: fs, by rw [ofFields_cons, ← ht]⟩

theorem toObject_ofFields (fs : Fields) : (ofFields fs).toObject = .obj fs := by
  rw [toObject, ofFields, List.map_map]
  exact congrArg Json.obj (List.map_id fs)

end Mapping

end UberPackage
