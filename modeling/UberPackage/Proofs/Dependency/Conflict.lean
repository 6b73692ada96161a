/-
  Libraries that bundle a package at different ranges.

  A library requires a range for each name that it bundles (`Library.Requires`).  Once a bundle has
  a range for a name it keeps one that is the same (`Bundle.Carries`); so libraries that have a
  bundle require the same ranges (`Bundle.agree_of_collect`).  And libraries that can be read have
  no other fault than a conflict (`Bundle.conflict_of_collect`).
-/
import UberPackage.Proofs.Dependency.Bundle
import UberPackage.Proofs.Json.Comparison

namespace UberPackage

namespace Library

/-- The library bundles a name, and this is the range that it requires for it. -/
def Requires (l : Library) (name : Text) (range : Json) : Prop :=
  ∃ dev runtime names, l.manifest.devDependencies = .ok dev ∧
    l.manifest.dependencies = .ok runtime ∧
    l.manifest.bundled = .ok names ∧ Json.str name ∈ names ∧
    range = Bundle.requirement dev runtime (.str name)

/-- What the library bundles and requires can be read. -/
def CanBundle (l : Library) : Prop :=
  ∃ dev runtime names, l.manifest.devDependencies = .ok dev ∧
    l.manifest.dependencies = .ok runtime ∧
    l.manifest.bundled = .ok names ∧ ∀ name ∈ names, name.isKey = true

end Library

namespace Bundle

variable {b b' : Bundle} {name : Text} {range : Json} {l k : Library}

/-- The bundle has the range for the name, or one that is the same. -/
def Carries (b : Bundle) (name : Text) (range : Json) : Prop :=
  ∃ e, b.get? (.str name) = some e ∧ (e = range ∨ range.same e = true)

/-! ## One requirement -/

/-- One more range for a name that has one is the same. -/
theorem agree_of_add (hb : b.Carries name range) (hn : range ≠ .null) {other : Json}
    (h : b.add (.str name) other = .ok b') : range.same other = true := by
  obtain ⟨e, he, hsame⟩ := hb
  have hnull : e ≠ .null := by
    rintro rfl
    exact hsame.elim (fun h => hn h.symm) fun h => hn (Json.eq_null_of_same h)
  have hother : e.same other = true := by
    rw [add, he] at h
    dsimp only [Json.isKey] at h
    cases ho : e.same other with
    | true => rfl
    | false =>
      cases e with
      | null => exact absurd rfl hnull
      | _ => simp [ho] at h
  exact hsame.elim (fun h => h ▸ hother) fun h => Json.same_trans h hother

theorem carries_of_add (h : b.add (.str name) range = .ok b') : b'.Carries name range := by
  refine ⟨range, ?_, Or.inl rfl⟩
  rw [add_ok h, Mapping.get?_set_str, Json.same_str, beq_self_eq_true, if_pos rfl]

theorem Carries.add (hb : b.Carries name range) (hn : range ≠ .null) {key other : Json}
    (h : b.add key other = .ok b') : b'.Carries name range := by
  cases hkey : key.same (.str name) with
  | true =>
    rw [Json.eq_of_same_str hkey] at h
    refine ⟨other, ?_, Or.inr (agree_of_add hb hn h)⟩
    rw [add_ok h, Mapping.get?_set_str, Json.same_str, beq_self_eq_true, if_pos rfl]
  | false =>
    obtain ⟨e, he, hsame⟩ := hb
    refine ⟨e, ?_, hsame⟩
    rw [add_ok h, Mapping.get?_set_str, hkey, if_neg Bool.false_ne_true, he]

/-- In a readable bundle only a conflict is at fault. -/
theorem conflict_of_add {key : Json} (hk : key.isKey = true) {e : DependencyFault}
    (h : b.add key range = .error e) :
    ∃ name existing requested, e = .conflict name existing requested := by
  rw [Bundle.add, hk] at h
  split at h
  · next hfalse => cases hfalse
  · split at h
    · cases h
    · cases h
    · split at h
      · cases h
      · exact ⟨_, _, _, (Except.error.inj h).symm⟩

/-! ## One library -/

/-- The requirements of a library are added one after the other. -/
theorem addLibrary_eq {dev runtime : Mapping} {names : List Json}
    (hd : l.manifest.devDependencies = .ok dev) (hr : l.manifest.dependencies = .ok runtime)
    (hn : l.manifest.bundled = .ok names) :
    addLibrary b l = names.foldlM (fun b name => b.add name (requirement dev runtime name)) b := by
  rw [addLibrary, hd, hr, hn]
  rfl

theorem Carries.addLibrary (hb : b.Carries name range) (hn : range ≠ .null)
    (h : Bundle.addLibrary b l = .ok b') : b'.Carries name range := by
  rw [Bundle.addLibrary] at h
  simp only [except_bind_eq_ok] at h
  obtain ⟨dev, -, runtime, -, names, -, h⟩ := h
  exact foldlM_ok_inv (P := fun b => b.Carries name range) (fun _ _ _ _ hb h => hb.add hn h) hb h

/-- What a library requires is added to the bundle at some point. -/
theorem exists_add (hl : l.Requires name range) (h : addLibrary b l = .ok b') :
    ∃ b₁ b₂, b₁.add (.str name) range = .ok b₂ ∧
      (∀ {P : Bundle → Prop}, (∀ key other b b', P b → Bundle.add b key other = .ok b' → P b') →
        (P b → P b₁) ∧ (P b₂ → P b')) := by
  obtain ⟨dev, runtime, names, hd, hr, hn, hm, rfl⟩ := hl
  rw [addLibrary_eq hd hr hn] at h
  obtain ⟨before, after, rfl⟩ := List.append_of_mem hm
  obtain ⟨b₁, b₂, hbefore, hadd, hafter⟩ := foldlM_ok_split h
  exact ⟨b₁, b₂, hadd, fun hP => ⟨fun hb => foldlM_ok_inv (fun _ _ _ _ => hP _ _ _ _) hb hbefore,
    fun hb => foldlM_ok_inv (fun _ _ _ _ => hP _ _ _ _) hb hafter⟩⟩

theorem carries_of_addLibrary (hl : l.Requires name range) (hn : range ≠ .null)
    (h : addLibrary b l = .ok b') : b'.Carries name range := by
  obtain ⟨b₁, b₂, hadd, hkeeps⟩ := exists_add hl h
  exact (hkeeps fun _ _ _ _ hb h => Carries.add hb hn h).2 (carries_of_add hadd)

theorem agree_of_addLibrary (hb : b.Carries name range) (hn : range ≠ .null) {other : Json}
    (hl : l.Requires name other) (h : addLibrary b l = .ok b') : range.same other = true := by
  obtain ⟨b₁, b₂, hadd, hkeeps⟩ := exists_add hl h
  exact agree_of_add ((hkeeps fun _ _ _ _ hb h => Carries.add hb hn h).1 hb) hn hadd

/-! ## All libraries -/

/-- Of two libraries that have a bundle, the second one requires what the first one does. -/
theorem agree_of_collect {libraries : List Library} (h : collect libraries = .ok b)
    (hlk : [l, k].Sublist libraries) {other : Json} (hl : l.Requires name range)
    (hn : range ≠ .null) (hk : k.Requires name other) : range.same other = true := by
  obtain ⟨first, rest, rfl, hfirst, hrest⟩ := List.cons_sublist_iff.mp hlk
  obtain ⟨xs, ys, rfl⟩ := List.append_of_mem hfirst
  obtain ⟨zs, us, rfl⟩ := List.append_of_mem (List.singleton_sublist.mp hrest)
  rw [collect, List.append_assoc, List.cons_append] at h
  obtain ⟨b₁, b₂, -, hadd, h⟩ := foldlM_ok_split h
  rw [← List.append_assoc] at h
  obtain ⟨b₃, b₄, hbetween, hadd', -⟩ := foldlM_ok_split h
  have hcarries : b₃.Carries name range := foldlM_ok_inv (P := fun b => b.Carries name range)
    (fun _ _ _ _ hb h => hb.addLibrary hn h) (carries_of_addLibrary hl hn hadd) hbetween
  exact agree_of_addLibrary hcarries hn hk hadd'

/-- Libraries that can be read have no other fault than a conflict. -/
theorem conflict_of_collect {libraries : List Library} (hl : ∀ l ∈ libraries, l.CanBundle)
    {e : DependencyFault} (h : collect libraries = .error e) :
    ∃ name existing requested, e = .conflict name existing requested := by
  obtain ⟨l, hm, b, h⟩ := foldlM_error h
  obtain ⟨dev, runtime, names, hd, hr, hn, hkeys⟩ := hl l hm
  rw [addLibrary_eq hd hr hn] at h
  obtain ⟨key, hkey, b', h⟩ := foldlM_error h
  exact conflict_of_add (hkeys key hkey) h

end Bundle

end UberPackage
