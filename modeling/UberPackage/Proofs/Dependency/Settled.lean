/-
  A workspace that has been corrected once.

  When a plan has nothing to correct in the manifest, only entries that are not hoisted have been
  found missing (`Plan.exists_hoisted`).  The corrected workspace has them all and keeps what it
  had, whatever values these are (`WorkspaceCorrections.Corrects`); so a plan for it has nothing to
  correct (`Plan.make_again`).  The corrected workspace can be written and read again
  (`Corrects.readable`), and a package that it is the manifest of takes part as before
  (`Manifest.skipReason?_set`).
-/
import UberPackage.Proofs.Dependency.Convergence
import UberPackage.Proofs.Json.Mapping

namespace UberPackage

namespace Json

theorem isIn_str_iff {t : Text} {vs : List Json} : (str t).isIn vs = true ↔ str t ∈ vs := by
  rw [isIn, List.any_eq_true]
  constructor
  · rintro ⟨v, hv, hsame⟩
    exact eq_of_same_str hsame ▸ hv
  · exact fun h => ⟨_, h, by rw [same_str, beq_self_eq_true]⟩

theorem sort?_perm {vs sorted : List Json} (h : sort? vs = some sorted) : sorted.Perm vs := by
  rw [sort?] at h
  split at h
  · rw [← Option.some.inj h]
    exact List.mergeSort_perm _ _
  · cases h

end Json

namespace ManifestCorrections

theorem mem_extend {vs additions : List Json} {v : Json} (h : v ∈ extend vs additions) :
    v ∈ vs ∨ v ∈ additions := by
  induction additions generalizing vs with
  | nil => exact Or.inl h
  | cons a additions ih =>
    rw [extend, List.foldl_cons, ← extend] at h
    rcases ih h with h | h
    · split at h
      · exact Or.inl h
      · rcases List.mem_append.mp h with h | h
        · exact Or.inl h
        · exact Or.inr (List.mem_singleton.mp h ▸ List.mem_cons_self)
    · exact Or.inr (List.mem_cons_of_mem _ h)

/-- A text is not left out for another value. -/
theorem str_mem_extend {vs additions : List Json} {t : Text}
    (h : Json.str t ∈ vs ∨ Json.str t ∈ additions) : Json.str t ∈ extend vs additions := by
  induction additions generalizing vs with
  | nil => exact h.resolve_right List.not_mem_nil
  | cons a additions ih =>
    rw [extend, List.foldl_cons, ← extend]
    refine ih ?_
    rcases h with h | h
    · split
      · exact Or.inl h
      · exact Or.inl (List.mem_append_left _ h)
    · rcases List.mem_cons.mp h with rfl | h
      · split
        · next hin => exact Or.inl (Json.isIn_str_iff.mp hin)
        · exact Or.inl (List.mem_append_right _ List.mem_cons_self)
      · exact Or.inr h

end ManifestCorrections

/-! ## The corrected workspace -/

namespace WorkspaceCorrections

/-- What is made of the entries that are not hoisted: the old ones and those that are missing. -/
structure Corrects (c : WorkspaceCorrections) (w : Fields) (old entries : List Json) : Prop where
  before :
    (Json.orElse ((settings (w.get? "workspaces")).get? "nohoist") (.arr [])).elements = .ok old
  keys : (old ++ c.nohoist).all Json.isKey = true
  perm : entries.Perm (ManifestCorrections.extend [] (old ++ c.nohoist))

/-- The workspace with other entries that are not hoisted. -/
def replaced (w : Fields) (entries : List Json) : Fields :=
  w.set "workspaces" (.obj ((settings (w.get? "workspaces")).set "nohoist" (.arr entries)))

theorem corrects_of_apply {c : WorkspaceCorrections} {w : Fields} {v : Json} (hc : c.changed = true)
    (h : c.apply (.obj w) = .ok v) :
    ∃ old entries, c.Corrects w old entries ∧ v = .obj (replaced w entries) := by
  rw [apply, hc] at h
  obtain ⟨m, hm, h⟩ := except_bind_eq_ok.mp h
  obtain rfl := Except.ok.inj hm
  rw [Bool.not_true, if_neg Bool.false_ne_true, Mapping.get?_ofFields] at h
  dsimp only at h
  obtain ⟨old, hold, h⟩ := except_bind_eq_ok.mp h
  obtain ⟨all, hall, h⟩ := except_bind_eq_ok.mp h
  obtain ⟨entries, hentries, h⟩ := except_bind_eq_ok.mp h
  rw [distinct] at hall
  split at hall
  · next hkeys =>
    obtain rfl := Except.ok.inj hall
    rw [ManifestCorrections.sorted] at hentries
    split at hentries
    · next sorted hsort =>
      obtain rfl := Except.ok.inj hentries
      refine ⟨old, sorted, ⟨hold, hkeys, Json.sort?_perm hsort⟩, ?_⟩
      rw [← Except.ok.inj h, Mapping.set_ofFields, Mapping.toObject_ofFields, replaced]
    · cases hentries
  · cases hall

namespace Corrects

variable {c : WorkspaceCorrections} {w : Fields} {old entries : List Json}

theorem mem (h : c.Corrects w old entries) {v : Json} (hv : v ∈ entries) :
    v ∈ old ∨ v ∈ c.nohoist :=
  List.mem_append.mp ((ManifestCorrections.mem_extend (h.perm.mem_iff.mp hv)).resolve_left
    List.not_mem_nil)

theorem str_mem (h : c.Corrects w old entries) {t : Text}
    (ht : Json.str t ∈ old ∨ Json.str t ∈ c.nohoist) : Json.str t ∈ entries :=
  h.perm.mem_iff.mpr (ManifestCorrections.str_mem_extend (Or.inr (List.mem_append.mpr ht)))

/-- The entries that the corrected workspace has. -/
theorem nohoist_replaced (h : c.Corrects w old entries) :
    Finding.nohoist (.obj (replaced w entries)) = .ok entries := by
  have hkeys : entries.all Json.isKey = true := by
    refine List.all_eq_true.mpr fun v hv => List.all_eq_true.mp h.keys v ?_
    exact List.mem_append.mpr (h.mem hv)
  have horElse : Json.orElse (some (.arr entries)) (.arr []) = .arr entries := by
    cases entries <;> rfl
  rw [Finding.nohoist, Json.fields, except_ok_bind, replaced, Fields.get?_set_self]
  dsimp only
  rw [Fields.get?_set_self, horElse, Json.elements, except_ok_bind, if_pos hkeys]
  rfl

/-- The entries that are checked are the old ones. -/
theorem old_eq (h : c.Corrects w old entries) {found : List Json}
    (hn : Finding.nohoist (.obj w) = .ok found) {v : Json} (hv : v ∈ found) : v ∈ old := by
  have hold := h.before
  rw [Finding.nohoist, Json.fields, except_ok_bind] at hn
  split at hn
  · next fs hfs =>
    rw [hfs, settings] at hold
    rw [hold, except_ok_bind] at hn
    split at hn
    · rwa [Except.ok.inj hn]
    · cases hn
  · rw [← Except.ok.inj hn] at hv
    exact absurd hv List.not_mem_nil

/-- The corrected workspace can be written and read again. -/
theorem readable (h : c.Corrects w old entries) (hw : Json.Readable (.obj w))
    (hc : ∀ v ∈ c.nohoist, v.Readable) : Json.Readable (.obj (replaced w entries)) := by
  have hnil : Json.Readable (.obj []) := .obj List.nodup_nil fun f hf => absurd hf List.not_mem_nil
  have hsettings : Json.Readable (.obj (settings (w.get? "workspaces"))) := by
    unfold settings
    split
    · next packages hp =>
      refine .obj (List.nodup_singleton _) fun f hf => ?_
      rw [List.mem_singleton.mp hf]
      exact hw.get? hp
    · next fs hfs => exact hw.get? hfs
    · exact hnil
  have hold : ∀ v ∈ old, v.Readable := by
    refine Json.Readable.elements (Json.Readable.orElse (fun v hv => hsettings.get? hv) ?_) h.before
    exact .arr fun v hv => absurd hv List.not_mem_nil
  refine hw.set _ (hsettings.set _ (.arr fun v hv => ?_))
  exact (h.mem hv).elim (hold v) (hc v)

end Corrects

end WorkspaceCorrections

/-- Whether a package takes part depends on three fields. -/
theorem Manifest.skipReason?_set {fs : Fields} {key : Text} (v : Json) (hp : key ≠ "private")
    (hd : key ≠ "deprecated") (hj : key ≠ "jsii") :
    (Manifest.mk (fs.set key v)).skipReason? = (Manifest.mk fs).skipReason? := by
  have hget :
      ∀ {k : Text}, key ≠ k → (Manifest.mk (fs.set key v)).get? k = (Manifest.mk fs).get? k :=
    fun hk => Fields.get?_set_of_ne hk.symm v fs
  have hflag :
      ∀ {k : Text}, key ≠ k → (Manifest.mk (fs.set key v)).flag k = (Manifest.mk fs).flag k :=
    fun hk => by rw [flag, hget hk, flag]
  have hjsii : (Manifest.mk (fs.set key v)).jsii? = (Manifest.mk fs).jsii? := by
    rw [jsii?, present?, hget hj, jsii?, present?]
  rw [skipReason?, isPrivate, hflag hp, isDeprecated, hflag hd, hjsii, skipReason?,
    isPrivate, isDeprecated]

/-! ## A second plan -/

namespace Mapping

theorem set_ne_nil (key value : Json) (m : Mapping) : m.set key value ≠ [] := by
  cases m with
  | nil => exact List.cons_ne_nil _ _
  | cons e m =>
    obtain ⟨k, v⟩ := e
    rw [set]
    split <;> exact List.cons_ne_nil _ _

theorem isEmpty_update {m entries : Mapping} (h : (m.update entries).isEmpty = true) :
    m = [] ∧ entries = [] := by
  induction entries generalizing m with
  | nil => exact ⟨List.isEmpty_iff.mp h, rfl⟩
  | cons e entries ih => exact absurd (ih h).1 (set_ne_nil e.1 e.2 m)

end Mapping

namespace Plan

variable {libraries : List Library} {uber workspace : Json} {p : Plan}

/-- The documents of a plan are objects. -/
theorem objects_of_make (h : (make libraries uber workspace).2 = .ok p) :
    ∃ u w entries names, uber = .obj u ∧ workspace = .obj w ∧
      Finding.nohoist workspace = .ok entries ∧
      Finding.bundledNames u = .ok names := by
  obtain ⟨u, rfl⟩ : ∃ u, uber = .obj u := by
    cases uber with
    | obj u => exact ⟨u, rfl⟩
    | _ =>
      rw [make] at h
      split at h
      · cases h
      · cases h
  obtain ⟨bundle, -, hfault, -⟩ := make_eq_ok.mp h
  have hall := Survey.fault_eq_none_iff.mp hfault
  have hreadable : ∀ {α : Type} {v : Except Misfit α},
      Survey.readable v ∈ Finding.checks libraries u workspace bundle → ∃ x, v = .ok x := by
    intro α v hv
    obtain ⟨f, hf⟩ := hall _ hv
    cases v with
    | ok x => exact ⟨x, rfl⟩
    | error m => cases hf
  obtain ⟨entries, hentries⟩ := @hreadable _ (Finding.nohoist workspace) (by simp [Finding.checks])
  obtain ⟨names, hnames⟩ := @hreadable _ (Finding.bundledNames u) (by simp [Finding.checks])
  cases workspace with
  | obj w => exact ⟨u, w, entries, names, rfl, rfl, hentries, hnames⟩
  | _ => cases hentries

/-- When there is nothing to correct in the manifest, only missing entries of the workspace have
been found. -/
theorem exists_hoisted {found : List Finding}
    (h : (ManifestCorrections.ofFindings found).changed = false) {f : Finding} (hf : f ∈ found) :
    ∃ entry, f = .hoisted entry := by
  rw [ManifestCorrections.changed, Bool.not_eq_false', Bool.and_eq_true, Bool.and_eq_true,
    Bool.and_eq_true] at h
  obtain ⟨⟨⟨hdev, hbundled⟩, hranges⟩, hpruned⟩ := h
  have hversions := List.filterMap_eq_nil_iff.mp (Mapping.isEmpty_update hdev).2 f hf
  have hadditions := List.filterMap_eq_nil_iff.mp (List.isEmpty_iff.mp hbundled) f hf
  have hrange := List.filterMap_eq_nil_iff.mp (Mapping.isEmpty_update hranges).2 f hf
  have hspurious := List.filterMap_eq_nil_iff.mp (List.isEmpty_iff.mp hpruned) f hf
  cases f with
  | hoisted entry => exact ⟨entry, rfl⟩
  | missing name version => cases hversions
  | wrongVersion name version found => cases hversions
  | unbundled name range => cases hadditions
  | wrongRange name range => cases hrange
  | spurious name => cases hspurious

/-- **A workspace is corrected once**: when a plan has nothing to correct in the manifest, a plan
for the corrected workspace has nothing to correct at all. -/
theorem make_again {corrected : Json} (h : (make libraries uber workspace).2 = .ok p)
    (hm : p.manifest.changed = false) (hw : p.workspace.changed = true)
    (hc : p.workspace.apply workspace = .ok corrected) :
    ∃ p', (make libraries uber corrected).2 = .ok p' ∧ p'.workspace.changed = false ∧
      p'.manifest.changed = false := by
  obtain ⟨u, w, entries, names, rfl, rfl, hentries, hnames⟩ := objects_of_make h
  obtain ⟨bundle, hbundle, hfault, rfl⟩ := make_eq_ok.mp h
  obtain ⟨old, entries', hcorrects, rfl⟩ := WorkspaceCorrections.corrects_of_apply hw hc
  have hfound := Finding.silent_or_found hfault
  revert hm hcorrects hfound
  generalize (Survey.run (Finding.checks libraries u (.obj w) bundle)).found = found
  intro hm hcorrects hfound
  -- whatever a check has found is a missing entry
  have hsilent : ∀ c : Check, (c = .ok none ∨ ∃ f ∈ found, c = .ok (some f)) →
      (∀ entry, c ≠ .ok (some (.hoisted entry))) → c = .ok none := by
    rintro c (rfl | ⟨f, hf, rfl⟩) hnone
    · rfl
    · obtain ⟨entry, rfl⟩ := exists_hoisted hm hf
      exact absurd rfl (hnone entry)
  rw [Finding.forall_mem_checks hentries hnames] at hfound
  obtain ⟨hversions, -, hbundled, hkeys, hrequired⟩ := hfound
  have hall :
      ∀ c ∈ Finding.checks libraries u (.obj (WorkspaceCorrections.replaced w entries')) bundle,
      c = .ok none := by
    rw [Finding.forall_mem_checks hcorrects.nohoist_replaced hnames]
    refine ⟨fun l hl => hsilent _ (hversions l hl) fun entry he => ?_, rfl,
      fun e he => ⟨?_, ?_, ?_⟩,
      hsilent _ hkeys fun entry he => ?_, fun name hname =>
        hsilent _ (hrequired name hname) fun entry he => ?_⟩
    · rcases Finding.eq_of_checkVersion he with hf | ⟨_, hf⟩
      · cases hf
      · cases hf
    · rw [Finding.checkNohoist, if_pos]
      rw [Json.isIn_str_iff]
      refine hcorrects.str_mem ?_
      rcases (hbundled e he).1 with hnone | ⟨f, hf, hsome⟩
      · rw [Finding.checkNohoist, Except.ok.injEq] at hnone
        split at hnone
        · next hin => exact Or.inl (hcorrects.old_eq hentries (Json.isIn_str_iff.mp hin))
        · cases hnone
      · rw [Finding.eq_of_checkNohoist hsome] at hf
        refine Or.inr (List.mem_map_of_mem (List.mem_flatMap.mpr ⟨_, hf, ?_⟩))
        exact List.mem_cons_self
    · exact hsilent _ (hbundled e he).2.1 fun entry he => by cases Finding.eq_of_checkBundled he
    · exact hsilent _ (hbundled e he).2.2 fun entry he => by cases Finding.eq_of_checkRange he
    · rw [Finding.checkNames] at he
      split at he <;> cases he
    · cases (Finding.eq_of_checkRequired he).1
  refine ⟨ofFindings bundle [], make_eq_ok.mpr ⟨bundle, hbundle, ?_, ?_⟩, rfl, rfl⟩
  · rw [Survey.run_of_silent hall]
  · rw [Survey.run_of_silent hall]

end Plan

end UberPackage
