/-
  What a corrected workspace keeps from being hoisted.

  For each name of the bundle there is a pair of entries: its own, and one for all below it.  A plan
  looks for the first of them only, and adds both where it is missing
  (`Finding.mem_checks_hoisted`).  So the corrected workspace has the own entry of every bundled
  name, and the whole pair unless the workspace had the own entry alone (`Plan.make_nohoist`); then
  the pair stays incomplete (`Plan.make_nohoist_half`).
-/
import UberPackage.Proofs.Dependency.Exact

namespace UberPackage

namespace Plan

variable {libraries : List Library} {u w : Fields} {p : Plan}

/-- A plan is made only if the bundled names of the manifest can be read. -/
theorem exists_bundledNames {bundle : Bundle}
    (h : (Survey.run (Finding.checks libraries u (.obj w) bundle)).fault = none) :
    ∃ names, Finding.bundledNames u = .ok names := by
  obtain ⟨found, hreadable⟩ := Survey.fault_eq_none_iff.mp h
      (Survey.readable (Finding.bundledNames u)) <| by
    simp [Finding.checks]
  cases hnames : Finding.bundledNames u with
  | ok names => exact ⟨names, rfl⟩
  | error m =>
    rw [hnames] at hreadable
    cases hreadable

/-- The entries that a plan adds are the pairs of the bundled names whose own entry is missing. -/
theorem mem_added (hw : w.IsWorkspace)
    (h : (make libraries (.obj u) (.obj w)).2 = .ok p) {t : Text} :
    .str t ∈ p.workspace.nohoist ↔ ∃ e ∈ p.bundle,
      Finding.nohoistEntry (Manifest.mk u).name e.1 ∉ w.nohoist ∧
        (t = Finding.nohoistEntry (Manifest.mk u).name e.1 ∨
          t = Finding.nohoistEntry (Manifest.mk u).name e.1 ++ "/**") := by
  obtain ⟨bundle, -, hf, rfl⟩ := make_eq_ok.mp h
  obtain ⟨names, hn⟩ := exists_bundledNames hf
  have hmem : ∀ entry, Finding.hoisted entry ∈
      (Survey.run (Finding.checks libraries u (.obj w) bundle)).found ↔
      ∃ e ∈ bundle, entry = Finding.nohoistEntry (Manifest.mk u).name e.1 ∧
      entry ∉ w.nohoist := fun entry => by
    rw [Survey.mem_found hf, Finding.mem_checks_hoisted hw hn]
  rw [ofFindings, WorkspaceCorrections.ofFindings,
    List.mem_map_of_injective fun _ _ => Json.str.inj,
    Finding.mem_entries]
  constructor
  · rintro ⟨entry, hf, ht⟩
    obtain ⟨e, he, rfl, hmissing⟩ := (hmem entry).mp hf
    exact ⟨e, he, hmissing, ht⟩
  · rintro ⟨e, he, hmissing, ht⟩
    exact ⟨_, (hmem _).mpr ⟨e, he, rfl, hmissing⟩, ht⟩

/-- The corrected workspace has the entries that it had and those of the plan. -/
theorem exists_apply_workspace (hw : w.IsWorkspace)
    (h : (make libraries (.obj u) (.obj w)).2 = .ok p) :
    ∃ w' : Fields, p.workspace.apply (.obj w) = .ok (.obj w') ∧
      ∀ t, t ∈ w'.nohoist ↔ t ∈ w.nohoist ∨ .str t ∈ p.workspace.nohoist := by
  obtain ⟨bundle, -, -, rfl⟩ := make_eq_ok.mp h
  refine ⟨_, WorkspaceCorrections.apply_ofTexts hw _, fun t => ?_⟩
  rw [Fields.mem_nohoist_addNohoist, ofFindings, WorkspaceCorrections.ofFindings,
    List.mem_map_of_injective fun _ _ => Json.str.inj]

/-- **Bundled names are kept from being hoisted.** The corrected workspace has the entries that it
had, and the pair of each bundled name whose own entry was missing, and no others.  So it has the
own entry of every bundled name, and with it the entry for all below, unless the workspace had the
one without the other. -/
theorem make_nohoist (hw : w.IsWorkspace) (h : (make libraries (.obj u) (.obj w)).2 = .ok p) :
    ∃ w' : Fields, p.workspace.apply (.obj w) = .ok (.obj w') ∧
      (∀ t, t ∈ w'.nohoist ↔ t ∈ w.nohoist ∨ ∃ e ∈ p.bundle,
        Finding.nohoistEntry (Manifest.mk u).name e.1 ∉ w.nohoist ∧
          (t = Finding.nohoistEntry (Manifest.mk u).name e.1 ∨
            t = Finding.nohoistEntry (Manifest.mk u).name e.1 ++ "/**")) ∧
      ∀ e ∈ p.bundle, Finding.nohoistEntry (Manifest.mk u).name e.1 ∈ w'.nohoist ∧
        ((Finding.nohoistEntry (Manifest.mk u).name e.1 ∈ w.nohoist →
            Finding.nohoistEntry (Manifest.mk u).name e.1 ++ "/**" ∈ w.nohoist) →
          Finding.nohoistEntry (Manifest.mk u).name e.1 ++ "/**" ∈ w'.nohoist) := by
  obtain ⟨w', happly, hadded⟩ := exists_apply_workspace hw h
  refine ⟨w', happly, fun t => by rw [hadded, mem_added hw h], fun e he => ?_⟩
  by_cases hown : Finding.nohoistEntry (Manifest.mk u).name e.1 ∈ w.nohoist
  · exact ⟨(hadded _).mpr (Or.inl hown), fun hbelow => (hadded _).mpr (Or.inl (hbelow hown))⟩
  · have hpair := fun t ht => (hadded t).mpr (Or.inr ((mem_added hw h).mpr ⟨e, he, hown, ht⟩))
    exact ⟨hpair _ (Or.inl rfl), fun _ => hpair _ (Or.inr rfl)⟩

/-! ## A name without an entry, and one with half a pair -/

/-- A workspace that has the own entry of a name and no other. -/
def Sample.half : Fields := [("workspaces", .obj [("nohoist", .arr [.str "u/fast"])])]

theorem Sample.isWorkspace_half : half.IsWorkspace := fun fs h => by
  cases h
  rfl

theorem make_nohoist_sample :
    Sample.half.IsWorkspace ∧
    ∃ p, (make Sample.libraries (.obj Sample.uber) (.obj Sample.half)).2 = .ok p ∧
      (.str "slow", .str "^2") ∈ p.bundle ∧
      ∃ w' : Fields, p.workspace.apply (.obj Sample.half) = .ok (.obj w') ∧
        ("u/slow" : Text) ∈ w'.nohoist ∧ ("u/slow/**" : Text) ∈ w'.nohoist := by
  obtain ⟨p, hp, hbundle⟩ :
      ∃ p, (make Sample.libraries (.obj Sample.uber) (.obj Sample.half)).2 = .ok p ∧
      (.str "slow", .str "^2") ∈ p.bundle := ⟨_, rfl, List.mem_cons_of_mem _ List.mem_cons_self⟩
  obtain ⟨w', happly, -, hentries⟩ := make_nohoist Sample.isWorkspace_half hp
  obtain ⟨hown, hbelow⟩ := hentries _ hbundle
  have hmissing : ("u/slow" : Text) ∉ Sample.half.nohoist := by decide
  exact ⟨Sample.isWorkspace_half, p, hp, hbundle, w', happly, hown, hbelow fun h =>
    absurd h hmissing⟩

/-- Half a pair is not completed: the entry of its own hides that the other one is missing. -/
theorem make_nohoist_half :
    Sample.half.IsWorkspace ∧
    ∃ p, (make Sample.libraries (.obj Sample.uber) (.obj Sample.half)).2 = .ok p ∧
      (.str "fast", .str "^1") ∈ p.bundle ∧
      ∃ w' : Fields, p.workspace.apply (.obj Sample.half) = .ok (.obj w') ∧
        Finding.nohoistEntry (Manifest.mk Sample.uber).name (.str "fast") ++
          "/**" ∉ w'.nohoist := by
  obtain ⟨p, hp, hbundle, hplan⟩ :
      ∃ p, (make Sample.libraries (.obj Sample.uber) (.obj Sample.half)).2 = .ok p ∧
      (.str "fast", .str "^1") ∈ p.bundle ∧ p.workspace.nohoist =
        [.str "u/slow", .str "u/slow/**"] :=
    ⟨_, rfl, List.mem_cons_self, rfl⟩
  obtain ⟨w', happly, hadded⟩ := exists_apply_workspace Sample.isWorkspace_half hp
  refine ⟨Sample.isWorkspace_half, p, hp, hbundle, w', happly, fun hbelow => ?_⟩
  rcases (hadded _).mp hbelow with h | h
  · exact absurd h (by decide)
  · rw [hplan] at h
    rcases List.mem_pair.mp h with h | h <;> exact absurd (Json.str.inj h) (by decide)

end Plan

end UberPackage
