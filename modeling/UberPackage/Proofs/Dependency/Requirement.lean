/-
  Libraries have a bundle exactly when they agree.

  A library demands a range for each name that it bundles (`Library.Demands`): that of its
  development dependencies, or else of its dependencies, or else any.  A bundle has nothing but what
  libraries demand (`Bundle.Sourced`), and all that they demand (`Bundle.get?_of_demands`).  So
  libraries are refused exactly when two of them clash, and their order does not matter
  (`Bundle.collect_exact`).
-/
import UberPackage.Proofs.Dependency.Conflict

namespace UberPackage

namespace Library

/-- The library bundles a name, and this is the range that it demands for it: the entry of its
development dependencies, or else of its dependencies, or else any. -/
def Demands (l : Library) (name : Text) (range : Json) : Prop :=
  ∃ dev runtime names, l.manifest.devDependencies = .ok dev ∧
    l.manifest.dependencies = .ok runtime ∧
    l.manifest.bundled = .ok names ∧ Json.str name ∈ names ∧
    range = ((dev.get? (.str name)).or (runtime.get? (.str name))).getD (.str "*")

end Library

namespace Bundle

/-- Among texts no entry counts as missing. -/
theorem requirement_eq {dev runtime : Mapping} (hd : ∀ e ∈ dev, e.2.isText = true) (name : Json) :
    requirement dev runtime name = ((dev.get? name).or (runtime.get? name)).getD anyRange := by
  rw [requirement]
  cases h : dev.get? name with
  | none => rfl
  | some range =>
    obtain ⟨e, he, rfl⟩ := Mapping.mem_of_get? h
    obtain ⟨t, ht⟩ := Json.isText_iff.mp (hd e he)
    rw [ht]
    rfl

variable {libraries : List Library} {l : Library} {b b' : Bundle} {name : Text} {range : Json}

theorem demands_iff (hl : l.HasTextRanges) : l.Demands name range ↔ l.Requires name range := by
  constructor
  · rintro ⟨dev, runtime, names, hd, hr, hn, hm, hrange⟩
    refine ⟨dev, runtime, names, hd, hr, hn, hm, ?_⟩
    rw [hrange, requirement_eq (hl.dev dev hd)]
    rfl
  · rintro ⟨dev, runtime, names, hd, hr, hn, hm, hrange⟩
    refine ⟨dev, runtime, names, hd, hr, hn, hm, ?_⟩
    rw [hrange, requirement_eq (hl.dev dev hd)]
    rfl

theorem isText_of_demands (hl : l.HasTextRanges) (h : l.Demands name range) :
    range.isText = true := by
  obtain ⟨dev, runtime, names, hd, hr, -, -, rfl⟩ := (demands_iff hl).mp h
  exact requirement_isText (hl.dev dev hd) (hl.runtime runtime hr) (.str name)

/-! ## Nothing but what is demanded -/

/-- Every range of the bundle is demanded by a library. -/
def Sourced (libraries : List Library) (b : Bundle) : Prop :=
  ∀ name range, b.get? (.str name) = some range → ∃ l ∈ libraries, l.Demands name range

theorem sourced_nil : Sourced libraries [] := fun _ _ h => by cases h

theorem Sourced.add (hb : Sourced libraries b) (hl : l ∈ libraries) (hd : l.Demands name range)
    (h : b.add (.str name) range = .ok b') : Sourced libraries b' := by
  intro other found hget
  rw [add_ok h, Mapping.get?_set_str, Json.same_str] at hget
  split at hget
  · next heq =>
    obtain rfl := beq_iff_eq.mp heq
    obtain rfl := Option.some.inj hget
    exact ⟨l, hl, hd⟩
  · exact hb other found hget

/-- What a library adds for a bundled name is what it demands. -/
theorem demands_of_mem (hl : l.HasTextRanges) {dev runtime : Mapping} {names : List Json}
    (hd : l.manifest.devDependencies = .ok dev) (hr : l.manifest.dependencies = .ok runtime)
    (hn : l.manifest.bundled = .ok names) {key : Json} (hk : key ∈ names) :
    ∃ name, key = .str name ∧ l.Demands name (requirement dev runtime key) := by
  obtain ⟨name, rfl⟩ := Json.isText_iff.mp (hl.bundled names hn key hk)
  exact ⟨name, rfl, (demands_iff hl).mpr ⟨dev, runtime, names, hd, hr, hn, hk, rfl⟩⟩

theorem Sourced.addLibrary (texts : l.HasTextRanges) (hb : Sourced libraries b) (hl : l ∈ libraries)
    (h : addLibrary b l = .ok b') : Sourced libraries b' := by
  rw [Bundle.addLibrary] at h
  simp only [except_bind_eq_ok] at h
  obtain ⟨dev, hd, runtime, hr, names, hn, h⟩ := h
  refine foldlM_ok_inv (P := Sourced libraries) (fun key hk b b' hb h => ?_) hb h
  obtain ⟨name, rfl, hdemands⟩ :=
    demands_of_mem texts (fitting_ok hd) (fitting_ok hr) (fitting_ok hn) hk
  exact hb.add hl hdemands h

theorem sourced_of_collect (texts : ∀ l ∈ libraries, l.HasTextRanges)
    (h : collect libraries = .ok b) : Sourced libraries b :=
  foldlM_ok_inv (P := Sourced libraries) (fun l hl _ _ hb h =>
    hb.addLibrary (texts l hl) hl h) sourced_nil h

/-! ## All that is demanded -/

/-- A bundle has for each name the range that any library demands. -/
theorem get?_of_demands (texts : ∀ l ∈ libraries, l.HasTextRanges) (h : collect libraries = .ok b)
    (hl : l ∈ libraries) (hd : l.Demands name range) : b.get? (.str name) = some range := by
  obtain ⟨t, rfl⟩ := Json.isText_iff.mp (isText_of_demands (texts l hl) hd)
  have hnull : Json.str t ≠ .null := Json.noConfusion
  obtain ⟨first, rest, rfl⟩ := List.append_of_mem hl
  obtain ⟨b₁, b₂, -, hadd, hrest⟩ := foldlM_ok_split h
  have hcarries : b₂.Carries name (.str t) :=
    carries_of_addLibrary ((demands_iff (texts l hl)).mp hd) hnull hadd
  obtain ⟨e, he, hsame⟩ : b.Carries name (.str t) :=
    foldlM_ok_inv (P := fun b => b.Carries name (.str t))
      (fun _ _ _ _ hb h => hb.addLibrary hnull h) hcarries hrest
  rw [he]
  exact hsame.elim (congrArg some) fun h => congrArg some (Json.eq_str_of_same h)

/-! ## Conflicts -/

/-- Two libraries demand different ranges for one name. -/
def Clash (libraries : List Library) : Prop :=
  ∃ l ∈ libraries, ∃ k ∈ libraries, ∃ name range other,
    l.Demands name range ∧ k.Demands name other ∧ range ≠ other

theorem Clash.perm {others : List Library} (hperm : libraries.Perm others) : Clash libraries ↔
    Clash others := by
  simp only [Clash, hperm.mem_iff]

/-- The libraries are refused for a conflict. -/
def IsConflict (result : Except DependencyFault Bundle) : Prop :=
  ∃ name existing requested, result = .error (.conflict name existing requested)

/-- A range that is refused differs from the one in the bundle. -/
theorem ne_of_add {key existing requested : Json} (hrange : range.isText = true)
    (h : b.add (.str name) range = .error (.conflict key existing requested)) :
    b.get? (.str name) = some existing ∧ existing ≠ range := by
  obtain ⟨t, rfl⟩ := Json.isText_iff.mp hrange
  rw [add, show (Json.str name).isKey = true from rfl, Bool.not_true,
    if_neg Bool.false_ne_true] at h
  split at h
  · cases h
  · cases h
  · next found hfound hget =>
    split at h
    · cases h
    · next hdiffers =>
      obtain ⟨-, rfl, -⟩ := DependencyFault.conflict.inj (Except.error.inj h)
      refine ⟨hget, ?_⟩
      rintro rfl
      rw [Json.same_str, beq_self_eq_true] at hdiffers
      exact hdiffers rfl

/-- Where a conflict is found, two libraries clash. -/
theorem clash_of_conflict (texts : ∀ l ∈ libraries, l.HasTextRanges)
    (readable : ∀ l ∈ libraries, l.CanBundle) (h : IsConflict (collect libraries)) :
    Clash libraries := by
  obtain ⟨key, existing, requested, h⟩ := h
  obtain ⟨l, hl, b, hb, h⟩ := foldlM_error_inv (P := Sourced libraries)
    (fun l hl _ _ hb h => hb.addLibrary (texts l hl) hl h) sourced_nil h
  obtain ⟨dev, runtime, names, hd, hr, hn, -⟩ := readable l hl
  have hdemands :
      ∀ key ∈ names, ∃ name, key = .str name ∧ l.Demands name (requirement dev runtime key) :=
    fun _ => demands_of_mem (texts l hl) hd hr hn
  rw [addLibrary_eq hd hr hn] at h
  obtain ⟨key', hk, b', hb', h⟩ := foldlM_error_inv (P := Sourced libraries)
      (fun key hk b b' hb h => by
    obtain ⟨name, rfl, hd⟩ := hdemands key hk
    exact hb.add hl hd h) hb h
  obtain ⟨name, rfl, hd'⟩ := hdemands key' hk
  obtain ⟨hget, hne⟩ := ne_of_add (isText_of_demands (texts l hl) hd') h
  obtain ⟨k, hk', hd''⟩ := hb' name existing hget
  exact ⟨k, hk', l, hl, name, existing, _, hd'', hd', hne⟩

/-- Libraries that clash have no bundle. -/
theorem not_clash_of_collect (texts : ∀ l ∈ libraries, l.HasTextRanges)
    (h : collect libraries = .ok b) : ¬ Clash libraries := by
  rintro ⟨l, hl, k, hk, name, range, other, hd, hd', hne⟩
  have hrange := get?_of_demands texts h hl hd
  have hother := get?_of_demands texts h hk hd'
  exact hne (Option.some.inj (hrange.symm.trans hother))

theorem isConflict_iff (texts : ∀ l ∈ libraries, l.HasTextRanges)
    (readable : ∀ l ∈ libraries, l.CanBundle) :
    IsConflict (collect libraries) ↔ Clash libraries := by
  refine ⟨clash_of_conflict texts readable, fun hclash => ?_⟩
  cases h : collect libraries with
  | ok b => exact absurd hclash (not_clash_of_collect texts h)
  | error e =>
    obtain ⟨name, existing, requested, rfl⟩ := conflict_of_collect readable h
    exact ⟨name, existing, requested, rfl⟩

/-- Bundles in which the same can be looked up differ in their order alone. -/
theorem IsTexts.perm (hb : b.IsTexts) (hb' : b'.IsTexts)
    (h : ∀ name range, b.get? (.str name) = some range ↔ b'.get? (.str name) = some range) :
    b.Perm b' := by
  obtain ⟨fs, rfl, hfs, -⟩ := hb
  obtain ⟨gs, rfl, hgs, -⟩ := hb'
  refine List.Perm.map _ ((List.perm_ext_iff_of_nodup hfs.of_map hgs.of_map).mpr fun ⟨k, v⟩ => ?_)
  have hmem : ∀ {fs : Fields}, fs.keys.Nodup →
      ((k, v) ∈ fs ↔ (Mapping.ofFields fs).get? (.str k) = some v) :=
    fun hd => by
      rw [Mapping.get?_ofFields]
      exact ⟨Fields.get?_of_mem_of_nodup hd, Fields.mem_of_get?⟩
  rw [hmem hfs, hmem hgs, h]

/-- **Conflicts of ranges are found exactly.** Libraries whose names and ranges are texts are
refused for a conflict if and only if two of them demand different ranges for one name.  Otherwise
they have a bundle, no name stands twice in it, and it has exactly the ranges that they demand.  In
another order they are refused just as well, or have the same bundle but for its order. -/
theorem collect_exact (texts : ∀ l ∈ libraries, l.HasTextRanges)
    (readable : ∀ l ∈ libraries, l.CanBundle) :
    (IsConflict (collect libraries) ↔ Clash libraries) ∧
      (¬ Clash libraries → ∃ b, collect libraries = .ok b ∧ b.IsTexts ∧
        ∀ name range, b.get? (.str name) = some range ↔ ∃ l ∈ libraries, l.Demands name range) ∧
      ∀ others, libraries.Perm others →
        (IsConflict (collect others) ↔ IsConflict (collect libraries)) ∧
          ∀ b, collect libraries = .ok b → ∃ b', collect others = .ok b' ∧ b'.Perm b := by
  have hfound :
      ∀ {ls : List Library}, (∀ l ∈ ls, l.HasTextRanges) → (∀ l ∈ ls, l.CanBundle) → ¬ Clash ls →
      ∃ b, collect ls = .ok b ∧ b.IsTexts ∧
        ∀ name range, b.get? (.str name) = some range ↔ ∃ l ∈ ls, l.Demands name range := by
    intro ls texts readable hagree
    cases h : collect ls with
    | ok b =>
      exact ⟨b, rfl, isTexts_collect texts h, fun name range =>
        ⟨sourced_of_collect texts h name range, fun ⟨l, hl, hd⟩ => get?_of_demands texts h hl hd⟩⟩
    | error e =>
      obtain ⟨name, existing, requested, rfl⟩ := conflict_of_collect readable h
      exact absurd (clash_of_conflict texts readable ⟨_, _, _, h⟩) hagree
  refine ⟨isConflict_iff texts readable, hfound texts readable, fun others hperm => ?_⟩
  have texts' : ∀ l ∈ others, l.HasTextRanges := fun l hl => texts l (hperm.mem_iff.mpr hl)
  have readable' : ∀ l ∈ others, l.CanBundle := fun l hl => readable l (hperm.mem_iff.mpr hl)
  refine ⟨?_, fun b hb => ?_⟩
  · rw [isConflict_iff texts' readable', isConflict_iff texts readable]
    exact (Clash.perm hperm).symm
  · have hagree := not_clash_of_collect texts hb
    obtain ⟨b', hb', htexts', hget'⟩ :=
      hfound texts' readable' fun h => hagree ((Clash.perm hperm).mpr h)
    obtain ⟨b₀, hb₀, htexts, hget⟩ := hfound texts readable hagree
    obtain rfl := Except.ok.inj (hb₀.symm.trans hb)
    refine ⟨b', hb', htexts'.perm htexts fun name range => ?_⟩
    simp only [hget', hget, hperm.mem_iff]

/-! ## Two libraries that agree, and a third -/

namespace Sample

/-- A library with some fields. -/
def library (fields : Fields) : Library := ⟨⟨fields⟩, ⟨.slash, ["p"]⟩, "p"⟩

/-- The development dependencies count first. -/
def first : Library := library
  [("devDependencies", .obj [("fast", .str "^1")]), ("dependencies", .obj [("fast", .str "^0")]),
    ("bundleDependencies", .arr [.str "fast"])]

/-- The other spelling of the names to bundle, and one that no dependency names. -/
def second : Library := library
  [("devDependencies", .null), ("dependencies", .obj [("fast", .str "^1")]),
    ("bundledDependencies", .arr [.str "slow", .str "fast"])]

/-- Any range is not the same as one that is given. -/
def third : Library :=
  library [("bundleDependencies", .null), ("bundledDependencies", .arr [.str "fast"])]

theorem hasTextRanges : ∀ l ∈ [first, second, third], l.HasTextRanges := by
  intro l hl
  simp only [List.mem_cons, List.not_mem_nil, or_false] at hl
  rcases hl with rfl | rfl | rfl
  all_goals
    refine ⟨fun m h => ?_, fun m h => ?_, fun names h => ?_⟩ <;> cases h <;> simp [Json.isText]

theorem canBundle : ∀ l ∈ [first, second, third], l.CanBundle := by
  intro l hl
  simp only [List.mem_cons, List.not_mem_nil, or_false] at hl
  rcases hl with rfl | rfl | rfl
  all_goals exact ⟨_, _, _, rfl, rfl, rfl, by decide⟩

end Sample

theorem collect_exact_sample :
    (∃ b, collect [Sample.first, Sample.second] = .ok b ∧ b.get? (.str "fast") = some (.str "^1") ∧
        b.get? (.str "slow") = some (.str "*") ∧
        ∃ b', collect [Sample.second, Sample.first] = .ok b' ∧ b'.Perm b) ∧
      IsConflict (collect [Sample.first, Sample.second, Sample.third]) := by
  have htexts : ∀ l ∈ [Sample.first, Sample.second], l.HasTextRanges := fun l hl =>
    Sample.hasTextRanges l (List.mem_append_left [Sample.third] hl)
  have hreadable : ∀ l ∈ [Sample.first, Sample.second], l.CanBundle := fun l hl =>
    Sample.canBundle l (List.mem_append_left [Sample.third] hl)
  obtain ⟨-, -, horder⟩ := collect_exact htexts hreadable
  refine ⟨⟨_, rfl, rfl, rfl, (horder _ (.swap _ _ [])).2 _ rfl⟩, ?_⟩
  refine (collect_exact Sample.hasTextRanges Sample.canBundle).1.mpr ?_
  refine ⟨Sample.first, by simp, Sample.third, by simp, "fast", .str "^1", .str "*", ?_, ?_, ?_⟩
  · exact ⟨_, _, _, rfl, rfl, rfl, List.mem_cons_self, rfl⟩
  · exact ⟨_, _, _, rfl, rfl, rfl, List.mem_cons_self, rfl⟩
  · exact fun h => absurd (Json.str.inj h) (by decide)

end Bundle

end UberPackage
