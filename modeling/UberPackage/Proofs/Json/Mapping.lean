/-
  Mappings that can be written and read again.

  The mapping that a readable document gives has no two keys that are the same, and its values are
  readable (`Mapping.isReadable_ofValue`).  Setting entries in it keeps that
  (`Mapping.IsReadable.update`). If its keys are texts it is the mapping of a readable object
  (`Mapping.IsReadable.isObject`), as they are when they have an order and a text is among them
  (`Mapping.isText_of_sort?`).
-/
import UberPackage.Proofs.Json.Comparison
import UberPackage.Proofs.Json.Readable

namespace UberPackage

namespace Json

/-! ## Documents -/

theorem readable_empty : Readable (.obj []) :=
  .obj List.nodup_nil fun _ h => absurd h List.not_mem_nil

theorem readable_none : Readable (.arr []) := .arr fun _ h => absurd h List.not_mem_nil

/-- The elements of a readable document are readable. -/
theorem Readable.elements {v : Json} (h : v.Readable) {vs : List Json} (he : v.elements = .ok vs) :
    ∀ w ∈ vs, w.Readable := by
  cases h with
  | arr h =>
    obtain rfl := Except.ok.inj he
    exact h
  | str t =>
    obtain rfl := Except.ok.inj he
    intro w hw
    obtain ⟨c, -, rfl⟩ := List.mem_map.mp hw
    exact .str _
  | obj hk h =>
    obtain rfl := Except.ok.inj he
    intro w hw
    obtain ⟨f, -, rfl⟩ := List.mem_map.mp hw
    exact .str _
  | _ => cases he

theorem Readable.orElse {v : Option Json} {other : Json} (hv : ∀ w, v = some w → w.Readable)
    (h : other.Readable) : (Json.orElse v other).Readable := by
  unfold Json.orElse
  split
  · next w =>
    split
    · exact hv w rfl
    · exact h
  · exact h

theorem Readable.get? {fs : Fields} (h : Readable (Json.obj fs)) {key : Text} {v : Json}
    (hv : fs.get? key = some v) : v.Readable := by
  cases h with
  | obj hk h => exact h _ (Fields.mem_of_get? hv)

/-! ## Values that have an order -/

theorem isText_of_less? {t : Text} {v : Json}
    (h : (less? (str t) v).isSome = true ∨ (less? v (str t)).isSome = true) : v.isText = true := by
  cases v with
  | str s => rfl
  | _ => simp [less?, numeral?] at h

/-- Values that have an order and a text among them are all texts. -/
theorem isText_of_allOrdered {vs : List Json} {t : Text} (h : allOrdered vs = true)
    (ht : str t ∈ vs) : ∀ v ∈ vs, v.isText = true := by
  induction vs with
  | nil => cases ht
  | cons w vs ih =>
    rw [allOrdered, Bool.and_eq_true, List.all_eq_true] at h
    rcases List.mem_cons.mp ht with rfl | ht
    · exact List.forall_mem_cons.mpr ⟨rfl, fun v hv => isText_of_less? (Or.inl (h.1 v hv))⟩
    · exact List.forall_mem_cons.mpr ⟨isText_of_less? (Or.inr (h.1 _ ht)), ih h.2 ht⟩

end Json

/-! ## Fields -/

namespace Fields

theorem keys_sorted (fs : Fields) : fs.sorted.keys = Text.sort fs.keys := by
  have hall : ∀ ks : List Text, (∀ k ∈ ks, k ∈ fs.keys) →
      keys (ks.filterMap fun k => (fs.get? k).map (k, ·)) = ks := by
    intro ks
    induction ks with
    | nil => exact fun _ => rfl
    | cons k ks ih =>
      intro h
      obtain ⟨v, hv⟩ : ∃ v, fs.get? k = some v := Option.ne_none_iff_exists'.mp fun hnone =>
        get?_eq_none_iff.mp hnone (h k List.mem_cons_self)
      rw [List.filterMap_cons_some (by rw [hv]; rfl : _ = some (k, v)), keys, List.map_cons, ← keys,
        ih fun k' hk' => h k' (List.mem_cons_of_mem _ hk')]
  exact hall _ fun k hk => Text.mem_sort.mp hk

theorem readable_sorted {fs : Fields} (h : Json.Readable (.obj fs)) :
    Json.Readable (.obj fs.sorted) := by
  cases h with
  | obj hk hv =>
    refine .obj ?_ fun f hf => ?_
    · rw [keys_sorted]
      exact (Text.sort_perm _).nodup_iff.mpr hk
    · obtain ⟨k, -, hf⟩ := List.mem_filterMap.mp hf
      obtain ⟨v, hget, rfl⟩ := Option.map_eq_some_iff.mp hf
      exact hv _ (mem_of_get? hget)

theorem readable_of_sublist {fs gs : Fields} (hs : gs.Sublist fs) (h : Json.Readable (.obj fs)) :
    Json.Readable (.obj gs) := by
  cases h with
  | obj hk hv => exact .obj (hk.sublist (hs.map Prod.fst)) fun f hf => hv f (hs.subset hf)

end Fields

/-! ## Mappings -/

namespace Mapping

/-- The mapping of an object that can be written and read again. -/
def IsObject (m : Mapping) : Prop := ∃ fs : Fields, m = ofFields fs ∧ Json.Readable (.obj fs)

/-- No two keys are the same, and the values can be written and read again. -/
structure IsReadable (m : Mapping) : Prop where
  keys : m.Pairwise fun e f => e.1.same f.1 = false
  values : ∀ e ∈ m, e.2.Readable

theorem mem_of_get?_str {t : Text} {v : Json} {m : Mapping} (h : m.get? (.str t) = some v) :
    (.str t, v) ∈ m := by
  induction m with
  | nil => cases h
  | cons e m ih =>
    obtain ⟨k, w⟩ := e
    rw [get?] at h
    split at h
    · next hk =>
      rw [Json.eq_of_same_str hk, Option.some.inj h]
      exact List.mem_cons_self
    · exact List.mem_cons_of_mem _ (ih h)

/-- A mapping that can be sorted has no keys but texts if a text is among them. -/
theorem isText_of_sort? {m sorted : Mapping} {t : Text} {v : Json} (h : m.sort? = some sorted)
    (hv : m.get? (.str t) = some v) : ∀ e ∈ m, e.1.isText = true := by
  have hmem : Json.str t ∈ m.map Prod.fst :=
    List.mem_map_of_mem (f := Prod.fst) (mem_of_get?_str hv)
  obtain ⟨keys, hkeys, -⟩ := Option.bind_eq_some_iff.mp h
  rw [Json.sort?] at hkeys
  split at hkeys
  · next hordered =>
    have hall := Json.isText_of_allOrdered hordered hmem
    exact fun e he => hall _ (List.mem_map_of_mem he)
  · cases hkeys

/-- A key that is no text is not looked up in an object. -/
theorem get?_ofFields_eq_none {name : Json} (h : name.isText = false) (fs : Fields) :
    (ofFields fs).get? name = none := by
  induction fs with
  | nil => rfl
  | cons f fs ih =>
    have hf : (Json.str f.1).same name = false := Bool.eq_false_iff.mpr fun hsame => by
      rw [Json.eq_str_of_same hsame] at h
      cases h
    rw [ofFields_cons, get?, hf, if_neg Bool.false_ne_true, ih]

theorem get?_update_str (m : Mapping) (es : Fields) (t : Text) :
    (m.update (ofFields es)).get? (.str t) = (Fields.get? t es.reverse).or (m.get? (.str t)) := by
  induction es generalizing m with
  | nil => rfl
  | cons e es ih =>
    obtain ⟨k, v⟩ := e
    have h := ih (m.set (.str k) v)
    rw [update, ofFields_cons, List.foldl_cons, ← update, h, List.reverse_cons, Fields.get?_append,
      get?_set_str, Json.same_str, Option.or_assoc]
    congr 1
    by_cases hk : k = t
    · simp [Fields.get?, hk]
    · simp [Fields.get?, hk]

theorem exists_of_mem_set {key value : Json} {m : Mapping} {e : Json × Json}
    (h : e ∈ m.set key value) :
    e.2 = value ∧ (e.1 = key ∨ ∃ f ∈ m, f.1 = e.1) ∨ e ∈ m := by
  induction m with
  | nil =>
    obtain rfl := List.mem_singleton.mp h
    exact Or.inl ⟨rfl, Or.inl rfl⟩
  | cons f m ih =>
    obtain ⟨k, v⟩ := f
    rw [set] at h
    split at h
    · rcases List.mem_cons.mp h with rfl | h
      · exact Or.inl ⟨rfl, Or.inr ⟨_, List.mem_cons_self, rfl⟩⟩
      · exact Or.inr (List.mem_cons_of_mem _ h)
    · rcases List.mem_cons.mp h with rfl | h
      · exact Or.inr List.mem_cons_self
      · rcases ih h with ⟨hv, hk | ⟨f, hf, hk⟩⟩ | h
        · exact Or.inl ⟨hv, Or.inl hk⟩
        · exact Or.inl ⟨hv, Or.inr ⟨f, List.mem_cons_of_mem _ hf, hk⟩⟩
        · exact Or.inr (List.mem_cons_of_mem _ h)

theorem IsReadable.set {m : Mapping} (h : m.IsReadable) (key : Json) {value : Json}
    (hv : value.Readable) : (m.set key value).IsReadable where
  keys := by
    have hkeys := h.keys
    clear h
    induction m with
    | nil => exact List.pairwise_singleton _ _
    | cons f m ih =>
      obtain ⟨k, v⟩ := f
      obtain ⟨hfirst, hrest⟩ := List.pairwise_cons.mp hkeys
      rw [Mapping.set]
      split
      · exact List.pairwise_cons.mpr ⟨hfirst, hrest⟩
      · next hk =>
        refine List.pairwise_cons.mpr ⟨fun e he => ?_, ih hrest⟩
        rcases exists_of_mem_set he with ⟨-, hkey | ⟨f, hf, hkey⟩⟩ | he
        · rw [hkey]
          exact Bool.eq_false_iff.mpr hk
        · rw [← hkey]
          exact hfirst f hf
        · exact hfirst e he
  values := fun e he => (exists_of_mem_set he).elim (fun h => h.1 ▸ hv) (h.values e)

theorem IsReadable.update {m others : Mapping} (h : m.IsReadable)
    (ho : ∀ e ∈ others, e.2.Readable) : (m.update others).IsReadable := by
  induction others generalizing m with
  | nil => exact h
  | cons e others ih =>
    exact ih (h.set e.1 (ho e List.mem_cons_self)) fun f hf => ho f (List.mem_cons_of_mem _ hf)

/-- The keys of a mapping with others set in it. -/
theorem exists_of_mem_update {m others : Mapping} {e : Json × Json} (h : e ∈ m.update others) :
    (∃ f ∈ m, f.1 = e.1) ∨ ∃ f ∈ others, f.1 = e.1 := by
  induction others generalizing m with
  | nil => exact Or.inl ⟨e, h, rfl⟩
  | cons o others ih =>
    rcases ih h with ⟨f, hf, hfe⟩ | ⟨f, hf, hfe⟩
    · rcases exists_of_mem_set hf with ⟨-, hkey | ⟨g, hg, hgf⟩⟩ | hf
      · exact Or.inr ⟨o, List.mem_cons_self, hkey.symm.trans hfe⟩
      · exact Or.inl ⟨g, hg, hgf.trans hfe⟩
      · exact Or.inl ⟨f, hf, hfe⟩
    · exact Or.inr ⟨f, List.mem_cons_of_mem _ hf, hfe⟩

theorem isReadable_ofFields {fs : Fields} (h : Json.Readable (.obj fs)) :
    (ofFields fs).IsReadable := by
  cases h with
  | obj hk hv =>
    refine ⟨?_, fun e he => ?_⟩
    · rw [ofFields, List.pairwise_map]
      refine (List.pairwise_map.mp hk).imp fun {f g} hne => ?_
      rw [Json.same_str]
      exact beq_false_of_ne hne
    · obtain ⟨f, hf, rfl⟩ := List.mem_map.mp he
      exact hv f hf

/-- Readable mappings whose keys are texts are those of readable objects. -/
theorem IsReadable.isObject {m : Mapping} (h : m.IsReadable) (ht : ∀ e ∈ m, e.1.isText = true) :
    m.IsObject := by
  obtain ⟨fs, rfl⟩ := exists_ofFields ht
  refine ⟨fs, rfl, .obj ?_ fun f hf => h.values (.str f.1, f.2) (List.mem_map_of_mem hf)⟩
  have hkeys := h.keys
  rw [ofFields, List.pairwise_map] at hkeys
  refine List.pairwise_map.mpr (hkeys.imp fun {f g} hsame he => ?_)
  replace hsame : (Json.str f.1).same (.str g.1) = false := hsame
  rw [he, Json.same_str, beq_self_eq_true] at hsame
  cases hsame

theorem readable_of_pair {v k w : Json} (hv : v.Readable) (h : pair v = .ok (k, w)) :
    w.Readable := by
  rw [pair, except_bind_eq_ok] at h
  obtain ⟨vs, hvs, h⟩ := h
  split at h
  · next k' w' =>
    split at h
    · obtain ⟨-, rfl⟩ := Prod.mk.inj (Except.ok.inj h)
      exact hv.elements hvs _ (List.mem_cons_of_mem _ List.mem_cons_self)
    · cases h
  · cases h

theorem readable_of_pairs {vs : List Json} {pairs : Mapping} (hv : ∀ v ∈ vs, v.Readable)
    (h : vs.mapM pair = .ok pairs) : ∀ e ∈ pairs, e.2.Readable := by
  induction vs generalizing pairs with
  | nil =>
    obtain rfl := Except.ok.inj h
    exact fun e he => absurd he List.not_mem_nil
  | cons v vs ih =>
    rw [List.mapM_cons] at h
    obtain ⟨e, he, h⟩ := except_bind_eq_ok.mp h
    obtain ⟨es, hes, h⟩ := except_bind_eq_ok.mp h
    obtain rfl := Except.ok.inj h
    exact List.forall_mem_cons.mpr ⟨readable_of_pair (hv v List.mem_cons_self) he,
      ih (fun u hu => hv u (List.mem_cons_of_mem _ hu)) hes⟩

theorem isReadable_ofValue {v : Json} {m : Mapping} (hv : v.Readable) (h : ofValue v = .ok m) :
    m.IsReadable := by
  have hpairs :
      (do let pairs ← (← v.elements).mapM pair; return update [] pairs) = .ok m → m.IsReadable := by
    intro h
    obtain ⟨vs, hvs, h⟩ := except_bind_eq_ok.mp h
    obtain ⟨pairs, hpairs, h⟩ := except_bind_eq_ok.mp h
    obtain rfl := Except.ok.inj h
    exact IsReadable.update ⟨.nil, fun e he => absurd he List.not_mem_nil⟩
      (readable_of_pairs (hv.elements hvs) hpairs)
  cases v with
  | obj fs =>
    obtain rfl := Except.ok.inj h
    exact isReadable_ofFields hv
  | _ => exact hpairs h

end Mapping

end UberPackage
