/-
  Corrections on disk.

  A verification that gives its plan, or ends because it has corrected the manifest, has written
  both documents as far as they had to be corrected (`Build.corrected_of_verify`).  When they are
  two files, neither is lost: each can be read again and has what the plan calls for
  (`Build.verify_keeps`).
-/
import UberPackage.Proofs.Build.Again
import UberPackage.Proofs.Build.Refusal
import UberPackage.Proofs.Dependency.Kept

namespace UberPackage

/-- The manifest of a library that is found has been read from a document. -/
theorem Discovery.Finds.readable {d : Disk} {root : Path} {scope : Text} {found : Discovery.Found}
    (h : Discovery.Finds d root scope found) {l : Library} (hl : l ∈ found.libraries) :
    Json.Readable (.obj l.manifest.fields) := by
  obtain ⟨names, such, cs, -, -, hall, rfl⟩ := h.candidates
  obtain ⟨c, hc, htaken⟩ := List.mem_filterMap.mp (Discovery.libraries_eq cs ▸ hl)
  obtain ⟨p, -, hexamines⟩ := exists_of_forall₂ hall hc
  cases hexamines with
  | @manifest v m _ hholds hfits =>
    obtain ⟨bytes, chars, -, -, hjson⟩ := hholds
    have hfields : v = .obj m.fields := by
      cases v with
      | obj fs =>
        obtain ⟨gs, hgs, rfl⟩ := except_map_eq_ok.mp hfits
        rw [Except.ok.inj hgs]
      | _ =>
        obtain ⟨gs, hgs, -⟩ := except_map_eq_ok.mp hfits
        cases hgs
    have hm : l.manifest = m := by
      unfold Discovery.ofManifest at htaken
      split at htaken
      · cases htaken
      · rw [← Option.some.inj htaken]
    rw [hm, ← hfields]
    exact Json.readable_of_read hjson
  | missing => cases htaken

namespace Build

open Act Disk

variable {s : Settings} {w u v : World} {found : Discovery.Found}
  {manifest workspace : Json} {p : Plan}

/-! ## What has been written -/

/-- The document has been corrected if it had to be, and nothing else has changed. -/
def Corrected (d d' : Disk) (place : Place) (changed : Bool)
    (outcome : Except Misfit Json) : Prop :=
  d'.IsFileTree ∧ if changed then ∃ c, outcome = .ok c ∧ Puts d d' place c.write else d' = d

/-- What has been looked at before writing. -/
theorem inspect_does (h : Does (inspect s) w (found, manifest, workspace, p) u) :
    u.disk = w.disk ∧ Discovery.Finds w.disk s.librariesRoot s.scope found ∧
      Holds w.disk s.manifestPath manifest ∧
      Holds w.disk s.workspacePath workspace ∧
      (Plan.make found.libraries manifest workspace).2 = .ok p := by
  unfold inspect at h
  obtain ⟨found', u₀, hfound, h⟩ := does_bind.mp h
  obtain ⟨hu₀, hfinds⟩ := Discovery.run_does hfound
  obtain ⟨manifest', u₁, hread, h⟩ := does_bind.mp h
  obtain ⟨hmanifest, rfl⟩ := does_readDocument.mp hread
  obtain ⟨workspace', u₂, hread', h⟩ := does_bind.mp h
  obtain ⟨hworkspace, rfl⟩ := does_readDocument.mp hread'
  obtain ⟨p', u₃, hplan, h⟩ := does_bind.mp h
  obtain ⟨heq, rfl⟩ := does_pure.mp h
  obtain ⟨rfl, rfl, rfl, rfl⟩ :
      found' = found ∧ manifest' = manifest ∧ workspace' = workspace ∧ p' = p := by
    simpa using heq
  obtain ⟨hu₃, hp⟩ := plan_does hplan
  rw [hu₀] at hmanifest hworkspace hu₃
  exact ⟨hu₃, hfinds, hmanifest, hworkspace, hp⟩

/-- A document that has been written. -/
theorem corrected_of_write {path : Path} (hp : path.IsResolved) {c : Json}
    {outcome : Except Misfit Json} (hc : outcome = .ok c) (hw : w.disk.IsFileTree) {x : Unit}
    (h : Does (writeDocument path c) w x v) :
    Corrected w.disk v.disk path.parts true outcome := by
  have htree :=
    ((@within_writeText (fun _ => True) (fun _ => True) _ hp trivial c.write).does hw h).2.1
  exact ⟨htree, by rw [if_pos rfl]; exact ⟨c, hc, puts_of_writeText hp h⟩⟩

theorem correctWorkspace_does (hs : s.IsResolved) (hw : w.disk.IsFileTree)
    {c : WorkspaceCorrections} {x : Unit} (h : Does (correctWorkspace s workspace c) w x v) :
    Corrected w.disk v.disk s.workspacePath.parts c.changed (c.apply workspace) := by
  unfold correctWorkspace at h
  cases hc : c.changed with
  | false =>
    rw [hc, if_neg Bool.false_ne_true] at h
    obtain ⟨-, rfl⟩ := does_pure.mp h
    exact ⟨hw, by rw [if_neg Bool.false_ne_true]⟩
  | true =>
    rw [hc, if_pos rfl] at h
    obtain ⟨corrected, u, hgives, h⟩ := does_bind.mp h
    obtain ⟨hcorrected, rfl⟩ := does_orFail.mp hgives
    obtain ⟨_, u', hwrite, hrecord⟩ := does_bind.mp h
    have hdisk : v.disk = u'.disk := by rw [← does_records.mp hrecord]
    rw [hdisk]
    exact corrected_of_write hs.workspacePath hcorrected hw hwrite

/-- The manifest has been corrected when that is why the run ends, and was right when it goes on. -/
theorem correctManifest_ends (hs : s.IsResolved) (hw : w.disk.IsFileTree) {c : ManifestCorrections}
    (h : (∃ x, Does (correctManifest s manifest c) w x v) ∨
      Fails (correctManifest s manifest c) w .corrected v) :
    Corrected w.disk v.disk s.manifestPath.parts c.changed (c.apply manifest) := by
  unfold correctManifest at h
  cases hc : c.changed with
  | false =>
    rw [hc, if_neg Bool.false_ne_true] at h
    obtain ⟨x, h⟩ | h := h
    · obtain ⟨-, rfl⟩ := does_pure.mp h
      exact ⟨hw, by rw [if_neg Bool.false_ne_true]⟩
    · exact absurd h not_fails_pure
  | true =>
    rw [hc, if_pos rfl] at h
    obtain ⟨corrected, hcorrected, v', hwrite, rfl⟩ :
        ∃ corrected, c.apply manifest = .ok corrected ∧
        ∃ v', Does (writeDocument s.manifestPath corrected) w () v' ∧ v' = v := by
      obtain ⟨x, h⟩ | h := h
      · obtain ⟨_, _, -, h⟩ := does_bind.mp h
        obtain ⟨_, _, -, hthrow⟩ := does_bind.mp h
        exact absurd hthrow does_throw
      · rcases fails_bind.mp h with h | ⟨corrected, u, hgives, h⟩
        · obtain ⟨⟨_, -, hfault⟩, -⟩ := fails_orFail.mp h
          cases hfault
        · obtain ⟨hcorrected, rfl⟩ := does_orFail.mp hgives
          rcases fails_bind.mp h with h | ⟨_, v', hwrite, h⟩
          · exact absurd rfl (failsOnly_writeText (P := (· ≠ .corrected)) nofun
              (fun _ => nofun) _ _ _ _ _ h)
          · exact ⟨corrected, hcorrected, v', hwrite, (fails_throw.mp h).2⟩
    exact corrected_of_write hs.manifestPath hcorrected hw hwrite

/-- Correcting the workspace is never the reason why a run ends with a corrected manifest. -/
theorem failsOnly_correctWorkspace (s : Settings) (workspace : Json) (c : WorkspaceCorrections) :
    FailsOnly (· ≠ .corrected) (correctWorkspace s workspace c) := by
  unfold correctWorkspace
  split
  · refine (failsOnly_orFail fun _ => nofun).bind fun c => ?_
    exact (failsOnly_writeText nofun (fun _ => nofun) _ _).bind fun _ => failsOnly_records _
  · exact failsOnly_pure _

/-- A verification that gives its plan, or ends with a corrected manifest, has corrected both
documents. -/
theorem corrected_of_verify (hs : s.IsResolved) (hw : w.disk.IsFileTree)
    (hinspect : Does (inspect s) w (found, manifest, workspace, p) u)
    (h : (∃ x, Does (verify s) w x v) ∨ Fails (verify s) w .corrected v) :
    ∃ d, Corrected w.disk d s.workspacePath.parts p.workspace.changed
      (p.workspace.apply workspace) ∧
      Corrected d v.disk s.manifestPath.parts p.manifest.changed (p.manifest.apply manifest) := by
  have hu := (inspect_does hinspect).1
  have hsettle : (∃ x, Does (settle s (found, manifest, workspace, p)) u x v) ∨
      Fails (settle s (found, manifest, workspace, p)) u .corrected v := by
    rw [verify_eq] at h
    obtain ⟨x, h⟩ | h := h
    · obtain ⟨y, u', hy, h⟩ := does_bind.mp h
      obtain ⟨hyx, rfl⟩ := Prod.mk.inj (hinspect.symm.trans hy)
      rw [Except.ok.inj hyx]
      exact Or.inl ⟨x, h⟩
    · obtain ⟨y, u', hy, h⟩ := (fails_bind.mp h).resolve_left hinspect.not_fails
      obtain ⟨hyx, rfl⟩ := Prod.mk.inj (hinspect.symm.trans hy)
      rw [Except.ok.inj hyx]
      exact Or.inr h
  -- the workspace is corrected, and then the manifest
  obtain ⟨u₁, hworkspace, v₁, hv₁, hmanifest⟩ :
      ∃ u₁, Does (correctWorkspace s workspace p.workspace) u () u₁ ∧
      ∃ v₁ : World, v₁.disk = v.disk ∧
        ((∃ x, Does (correctManifest s manifest p.manifest) u₁ x v₁) ∨
        Fails (correctManifest s manifest p.manifest) u₁ .corrected v₁) := by
    unfold settle at hsettle
    obtain ⟨x, h⟩ | h := hsettle
    · obtain ⟨_, u₁, hworkspace, h⟩ := does_bind.mp h
      obtain ⟨x', v₁, hmanifest, h⟩ := does_bind.mp h
      obtain ⟨_, v₂, hrecord, h⟩ := does_bind.mp h
      obtain ⟨-, rfl⟩ := does_pure.mp h
      exact ⟨u₁, hworkspace, v₁, by rw [← does_records.mp hrecord], Or.inl ⟨x', hmanifest⟩⟩
    · rcases fails_bind.mp h with h | ⟨_, u₁, hworkspace, h⟩
      · exact absurd rfl (failsOnly_correctWorkspace s workspace p.workspace _ _ _ h)
      · rcases fails_bind.mp h with h | ⟨_, v₁, -, h⟩
        · exact ⟨u₁, hworkspace, v, rfl, Or.inr h⟩
        · refine absurd rfl ((?_ : FailsOnly (· ≠ .corrected) (do
            record .info stage "Dependencies are correct!"
            return Verified.mk found.libraries manifest p)) _ _ _ h)
          exact (failsOnly_records _).bind fun _ => failsOnly_pure _
  have hfirst := correctWorkspace_does hs (hu ▸ hw) hworkspace
  refine ⟨u₁.disk, hu ▸ hfirst, ?_⟩
  rw [← hv₁]
  exact correctManifest_ends hs hfirst.1 hmanifest

/-! ## What is read then -/

/-- A document that has been corrected is read as it has been written, or as it was. -/
theorem Corrected.holds {d d' : Disk} {path : Path} {changed : Bool}
    {outcome : Except Misfit Json} {x : Json} (h : Corrected d d' path.parts changed outcome)
    (hp : path.IsResolved) (hx : Holds d path x)
    (hreadable : ∀ c, changed = true → outcome = .ok c → c.Readable) :
    ∃ c, Holds d' path c ∧ if changed then outcome = .ok c else c = x := by
  obtain ⟨htree, h⟩ := h
  cases changed with
  | false =>
    rw [if_neg Bool.false_ne_true] at h
    exact ⟨x, h ▸ hx, by rw [if_neg Bool.false_ne_true]⟩
  | true =>
    rw [if_pos rfl] at h
    obtain ⟨c, hc, hputs⟩ := h
    refine ⟨c, holds_of_puts hx htree hp (hreadable c rfl hc) hputs.ofText? ?_,
      by rw [if_pos rfl, hc]⟩
    obtain ⟨bytes, -, hfile⟩ := hputs.file
    rw [hfile]
    rfl

theorem Corrected.frame {d d' : Disk} {place q : Place} {changed : Bool}
    {outcome : Except Misfit Json} (h : Corrected d d' place changed outcome) (hq : q ≠ place) :
    d'.entryAt? q = d.entryAt? q := by
  obtain ⟨-, h⟩ := h
  split at h
  · obtain ⟨_, -, hputs⟩ := h
    exact hputs.frame hq
  · rw [h]

/-- **No correction is lost**: when the workspace and the manifest are two files, and the libraries
bundle texts, a verification that gives its plan, or ends because it has corrected the manifest,
leaves documents that can be read and have all that the plan corrects. -/
theorem verify_keeps (hs : s.IsResolved) (hw : w.disk.IsFileTree)
    (hdiffer : s.workspacePath.parts ≠ s.manifestPath.parts)
    (hinspect : Does (inspect s) w (found, manifest, workspace, p) u)
    (htexts : ∀ l ∈ found.libraries, ∀ names, l.manifest.bundled = .ok names →
      ∀ name ∈ names, name.isText = true)
    (h : (∃ x, Does (verify s) w x v) ∨ Fails (verify s) w .corrected v) :
    (∃ workspace', Holds v.disk s.workspacePath workspace' ∧ p.workspace.KeptIn workspace') ∧
    ∃ manifest', Holds v.disk s.manifestPath manifest' ∧ p.manifest.KeptIn manifest' := by
  obtain ⟨-, hfinds, hmanifest, hworkspace, hplan⟩ := inspect_does hinspect
  obtain ⟨d, hfirst, hsecond⟩ := corrected_of_verify hs hw hinspect h
  obtain ⟨hwell, htext⟩ :=
    Plan.wellFormed_of_make (fun l hl => ⟨hfinds.readable hl, htexts l hl⟩) hplan
  obtain ⟨fs, gs, _, _, rfl, rfl, -, -⟩ := Plan.objects_of_make hplan
  have hreadable : ∀ {path x}, Holds w.disk path x → x.Readable := fun ⟨_, _, _, _, hjson⟩ =>
    Json.readable_of_read hjson
  constructor
  · obtain ⟨c, hholds, hc⟩ := hfirst.holds hs.workspacePath hworkspace fun c hchanged hc =>
      (WorkspaceCorrections.kept_of_apply htext (hreadable hworkspace) hchanged hc).1
    refine ⟨c, Discovery.holds_again hholds hfirst.1 hsecond.1 hs.workspacePath
      (hsecond.frame hdiffer), ?_⟩
    split at hc
    · next hchanged =>
        exact (WorkspaceCorrections.kept_of_apply htext (hreadable hworkspace) hchanged hc).2
    · next hchanged =>
      intro entry he
      rw [WorkspaceCorrections.changed, Bool.not_eq_true', Bool.not_eq_false,
        List.isEmpty_iff] at hchanged
      rw [hchanged] at he
      cases he
  · have hmanifest' :=
      Discovery.holds_again hmanifest hw hfirst.1 hs.manifestPath (hfirst.frame hdiffer.symm)
    obtain ⟨c, hholds, hc⟩ := hsecond.holds hs.manifestPath hmanifest' fun c _ hc =>
      (ManifestCorrections.kept_of_apply hwell (hreadable hmanifest) rfl hc).1
    refine ⟨c, hholds, ?_⟩
    split at hc
    · exact (ManifestCorrections.kept_of_apply hwell (hreadable hmanifest) rfl hc).2
    · next hchanged =>
      rw [Bool.not_eq_true] at hchanged
      exact ManifestCorrections.keptIn_of_unchanged hchanged c

namespace Sample

/-! A library that bundles a package, and a manifest that bundles another one as well. -/

/-- A manifest that bundles packages. -/
def loaded (names : List Text) : Fields := [("devDependencies", .obj [("@s/a", .str "1")]),
  ("dependencies", .obj [("x", .str "1")]), ("bundledDependencies", .arr (names.map .str))]

/-- A document with what is not to be hoisted for them. -/
def hoisted (w : Fields) : Fields :=
  w.set "workspaces" (.obj [("nohoist", .arr [.str "/x", .str "/x/**"])])

def ladenPlan : Plan :=
  ⟨[(.str "x", .str "1")], { pruned := [.str "y"] }, ⟨[.str "/x", .str "/x/**"]⟩⟩

/-- The disk with a library and some documents. -/
def shelf (library : Fields) (files : List (Place × Json)) : Disk where
  entries := (["u"], .dir) :: (["p"], .dir) :: (["p", "a"], .dir) ::
    (["p", "a", "package.json"], document (.obj library)) :: files.map fun f => (f.1, document f.2)
  cwd := []
  tag := "t"

def shelved : Disk := shelf (bundling "@s/a" "1")
    [(["w"], .obj []), (["u", "package.json"], .obj (loaded ["x", "y"]))]

theorem isFileTree_shelved : shelved.IsFileTree :=
  ⟨by decide, Disk.isTree_of_entries (by decide), by decide⟩

theorem readable_texts {ts : List Text} : Json.Readable (.arr (ts.map .str)) := .arr fun v hv => by
  obtain ⟨t, -, rfl⟩ := List.mem_map.mp hv
  exact .str t

theorem readable_loaded (names : List Text) : Json.Readable (.obj (loaded names)) := by
  refine .obj (by decide : (["devDependencies", "dependencies",
    "bundledDependencies"] : List Text).Nodup) fun f hf => ?_
  simp only [loaded, List.mem_cons, List.not_mem_nil, or_false] at hf
  rcases hf with rfl | rfl | rfl
  · refine .obj (List.nodup_singleton _) fun f hf => ?_
    rw [List.mem_singleton.mp hf]
    exact .str _
  · refine .obj (List.nodup_singleton _) fun f hf => ?_
    rw [List.mem_singleton.mp hf]
    exact .str _
  · exact readable_texts

theorem shelved_found :
    Discovery.Finds shelved ⟨.slash, ["p"]⟩ "@s/" ⟨[rival "@s/a" "a" "1"], []⟩ :=
  finds_one (readable_bundling "@s/a" "1") (by decide) rfl rfl rfl rfl rfl rfl rfl

theorem apply_hoisted (w : Fields) (h : w.get? "workspaces" = none) :
    ladenPlan.workspace.apply (.obj w) = .ok (.obj (hoisted w)) := by
  have hw : w.IsWorkspace := fun fs hfs => by rw [h] at hfs; cases hfs
  have hsort : Text.sort ["/x", "/x/**"] = ["/x", "/x/**"] := Text.sort_of_sorted (by decide)
  have hnone : w.nohoist = [] := by
    rw [Fields.nohoist, h]
    rfl
  refine (WorkspaceCorrections.apply_ofTexts hw ["/x", "/x/**"]).trans ?_
  rw [Fields.addNohoist, if_neg (by simp), hnone, h]
  show Except.ok (Json.obj
    (w.set "workspaces" (.obj [("nohoist", .arr ((Text.sort ["/x", "/x/**"]).map .str))]))) = _
  rw [hsort]
  rfl

theorem shelved_inspected : Gives (inspect (settings ["u", "lib"])) shelved
    (⟨[rival "@s/a" "a" "1"], []⟩, .obj (loaded ["x", "y"]), .obj [], ladenPlan) shelved :=
  gives_inspect shelved_found (holds_document (readable_loaded _) (by decide) rfl)
    (holds_document readable_nil (by decide) rfl) rfl

theorem shelved_corrected : ∃ j, Fails (verify (settings ["u", "lib"])) ⟨shelved, []⟩ .corrected
    ⟨shelf (bundling "@s/a" "1") [(["w"], .obj (hoisted [])),
      (["u", "package.json"], .obj (loaded ["x"]))], j⟩ := by
  have hwrite : Gives (writeDocument ⟨.slash, ["w"]⟩ (.obj (hoisted []))) shelved ()
      (shelf (bundling "@s/a" "1") [(["u", "package.json"], .obj (loaded ["x", "y"])),
        (["w"], .obj (hoisted []))]) :=
    gives_writeText (encode?_eq (by decide)) rfl
  have hwrite' : Gives (writeDocument ⟨.slash, ["u", "package.json"]⟩ (.obj (loaded ["x"])))
      (shelf (bundling "@s/a" "1") [(["u", "package.json"], .obj (loaded ["x", "y"])),
        (["w"], .obj (hoisted []))]) ()
      (shelf (bundling "@s/a" "1") [(["w"], .obj (hoisted [])),
        (["u", "package.json"], .obj (loaded ["x"]))]) :=
    gives_writeText (encode?_eq (by decide)) rfl
  have hworkspace :
      Gives (correctWorkspace (settings ["u", "lib"]) (.obj []) ladenPlan.workspace) shelved ()
        (shelf (bundling "@s/a" "1") [(["u", "package.json"], .obj (loaded ["x", "y"])),
          (["w"], .obj (hoisted []))]) :=
    (gives_orFail (apply_hoisted [] rfl)).bind (hwrite.bind (gives_records _))
  exact fails_corrected shelved_inspected hworkspace rfl rfl hwrite' []

theorem rival_texts {name directory range : Text} :
    ∀ names, (rival name directory range).manifest.bundled = .ok names →
    ∀ name ∈ names, name.isText = true := by
  intro names hnames v hv
  obtain rfl := Except.ok.inj hnames
  rw [List.mem_singleton.mp hv]
  rfl

end Sample

theorem verify_keeps_sample :
    (Sample.settings ["u", "lib"]).IsResolved ∧ Sample.shelved.IsFileTree ∧ ∃ u j,
      Does (inspect (Sample.settings ["u", "lib"])) ⟨Sample.shelved, []⟩
        (⟨[Sample.rival "@s/a" "a" "1"], []⟩, .obj (Sample.loaded ["x", "y"]), .obj [],
          Sample.ladenPlan) u ∧
      Fails (verify (Sample.settings ["u", "lib"])) ⟨Sample.shelved, []⟩ .corrected
        ⟨Sample.shelf (Sample.bundling "@s/a" "1") [(["w"], .obj (Sample.hoisted [])),
          (["u", "package.json"], .obj (Sample.loaded ["x"]))],
          j⟩ ∧
      (∃ workspace', Holds (Sample.shelf (Sample.bundling "@s/a" "1")
          [(["w"], .obj (Sample.hoisted [])), (["u", "package.json"], .obj (Sample.loaded ["x"]))])
            ⟨.slash, ["w"]⟩ workspace' ∧
        Sample.ladenPlan.workspace.KeptIn workspace') ∧
      ∃ manifest', Holds (Sample.shelf (Sample.bundling "@s/a" "1")
          [(["w"], .obj (Sample.hoisted [])), (["u", "package.json"], .obj (Sample.loaded ["x"]))])
            ⟨.slash, ["u", "package.json"]⟩ manifest' ∧
        Sample.ladenPlan.manifest.KeptIn manifest' := by
  obtain ⟨j, hinspect⟩ := Sample.shelved_inspected []
  obtain ⟨j', hfails⟩ := Sample.shelved_corrected
  have hs : (Sample.settings ["u", "lib"]).IsResolved := Sample.isResolved_settings (by decide)
  have hdiffer : (Sample.settings ["u", "lib"]).workspacePath.parts ≠
      (Sample.settings ["u", "lib"]).manifestPath.parts := by
    decide
  have htexts : ∀ l ∈ [Sample.rival "@s/a" "a" "1"], ∀ names, l.manifest.bundled = .ok names →
      ∀ name ∈ names, name.isText = true := by
    intro l hl
    rw [List.mem_singleton.mp hl]
    exact Sample.rival_texts
  exact ⟨hs, Sample.isFileTree_shelved, _, j', hinspect, hfails,
    verify_keeps hs Sample.isFileTree_shelved hdiffer hinspect htexts (Or.inr hfails)⟩

/-- A verification with a plan ends with a corrected manifest, and these are the documents then. -/
def EndsWith (s : Settings) (libraries : List Library) (p : Plan)
    (workspace manifest : Json) : Prop :=
  s.IsResolved ∧ ∃ (w : World) (old : Json × Json) (u v : World), w.disk.IsFileTree ∧
    Does (inspect s) w (⟨libraries, []⟩, old.1, old.2, p) u ∧ Fails (verify s) w .corrected v ∧
    Holds v.disk s.workspacePath workspace ∧ Holds v.disk s.manifestPath manifest

namespace Sample

/-! One file for both documents. -/

def joined : Settings :=
  { settings ["u", "lib"] with workspacePath := ⟨.slash, ["u", "package.json"]⟩ }

theorem joined_loses : EndsWith joined [rival "@s/a" "a" "1"] ladenPlan (.obj (loaded ["x"]))
    (.obj (loaded ["x"])) := by
  have hfinds :
      Discovery.Finds (shelf (bundling "@s/a" "1")
        [(["u", "package.json"], .obj (loaded ["x", "y"]))])
        ⟨.slash, ["p"]⟩ "@s/" ⟨[rival "@s/a" "a" "1"], []⟩ :=
    finds_one (readable_bundling "@s/a" "1") (by decide) rfl rfl rfl rfl rfl rfl rfl
  have hholds :
      Holds (shelf (bundling "@s/a" "1") [(["u", "package.json"], .obj (loaded ["x", "y"]))])
        ⟨.slash, ["u", "package.json"]⟩ (.obj (loaded ["x", "y"])) :=
    holds_document (readable_loaded _) (by decide) rfl
  have hwrite :
      Gives (writeDocument ⟨.slash, ["u", "package.json"]⟩ (.obj (hoisted (loaded ["x", "y"]))))
        (shelf (bundling "@s/a" "1") [(["u", "package.json"], .obj (loaded ["x", "y"]))]) ()
        (shelf (bundling "@s/a" "1")
          [(["u", "package.json"], .obj (hoisted (loaded ["x", "y"])))]) :=
    gives_writeText (encode?_eq (by decide +kernel)) rfl
  have hwrite' : Gives (writeDocument ⟨.slash, ["u", "package.json"]⟩ (.obj (loaded ["x"])))
      (shelf (bundling "@s/a" "1") [(["u", "package.json"], .obj (hoisted (loaded ["x", "y"])))]) ()
      (shelf (bundling "@s/a" "1") [(["u", "package.json"], .obj (loaded ["x"]))]) :=
    gives_writeText (encode?_eq (by decide)) rfl
  have hworkspace : Gives (correctWorkspace joined (.obj (loaded ["x", "y"])) ladenPlan.workspace)
      (shelf (bundling "@s/a" "1") [(["u", "package.json"], .obj (loaded ["x", "y"]))]) ()
      (shelf (bundling "@s/a" "1") [(["u", "package.json"], .obj (hoisted (loaded ["x", "y"])))]) :=
    (gives_orFail (apply_hoisted (loaded ["x", "y"]) rfl)).bind (hwrite.bind (gives_records _))
  have hinspect : Gives (inspect joined)
      (shelf (bundling "@s/a" "1") [(["u", "package.json"], .obj (loaded ["x", "y"]))])
      (⟨[rival "@s/a" "a" "1"], []⟩, .obj (loaded ["x", "y"]), .obj (loaded ["x", "y"]),
        ladenPlan) _ :=
    gives_inspect hfinds hholds hholds rfl
  obtain ⟨j, hj⟩ := hinspect []
  obtain ⟨j', hj'⟩ := fails_corrected hinspect hworkspace rfl rfl hwrite' []
  have hend : Holds (shelf (bundling "@s/a" "1") [(["u", "package.json"], .obj (loaded ["x"]))])
      ⟨.slash, ["u", "package.json"]⟩ (.obj (loaded ["x"])) :=
    holds_document (readable_loaded _) (by decide) rfl
  have hs : (settings ["u", "lib"]).IsResolved := isResolved_settings (by decide)
  exact ⟨⟨hs.librariesRoot, hs.manifestPath, hs.manifestPath, hs.outputDir⟩, ⟨_, []⟩, (_, _), _, _,
    ⟨by decide, Disk.isTree_of_entries (by decide), by decide⟩, hj, hj', hend, hend⟩

/-! Dependencies that are no object. -/

def listed (names : List Text) : Json :=
  .obj [("bundledDependencies", .arr (names.map .str)), ("dependencies", .arr [.str "x"])]

theorem readable_listed (names : List Text) : (listed names).Readable := by
  refine .obj (by decide : (["bundledDependencies", "dependencies"] : List Text).Nodup)
    fun f hf => ?_
  rcases List.mem_pair.mp hf with rfl | rfl
  · exact readable_texts
  · exact @readable_texts ["x"]

theorem listed_keeps : EndsWith (settings ["u", "lib"]) []
    ⟨[], { pruned := [.str "x"] }, {}⟩ (.obj []) (listed []) := by
  have hmanifest : Holds (diskWith (listed ["x"])) ⟨.slash, ["u", "package.json"]⟩ (listed ["x"]) :=
    holds_document (readable_listed _) (by decide) rfl
  have hworkspace : ∀ manifest, Holds (diskWith manifest) ⟨.slash, ["w"]⟩ (.obj []) := fun _ =>
    holds_document readable_nil (by decide) rfl
  have hinspect : Gives (inspect (settings ["u", "lib"])) (diskWith (listed ["x"]))
      (⟨[], []⟩, listed ["x"], .obj [], ⟨[], { pruned := [.str "x"] }, {}⟩) _ :=
    gives_inspect (found_none _) hmanifest (hworkspace _) rfl
  have hwrite :
      Gives (writeDocument ⟨.slash, ["u", "package.json"]⟩ (listed [])) (diskWith (listed ["x"])) ()
        (diskWith (listed [])) := gives_writeText (encode?_eq (by decide)) rfl
  obtain ⟨j, hj⟩ := hinspect []
  obtain ⟨j', hj'⟩ :=
    fails_corrected (s := settings ["u", "lib"]) hinspect gives_pure rfl rfl hwrite []
  exact ⟨isResolved_settings (by decide), ⟨_, []⟩, (_, _), _, _,
    ⟨by decide, Disk.isTree_of_entries (by decide), by decide⟩, hj, hj', hworkspace _,
    holds_document (readable_listed _) (by decide) rfl⟩

/-! A bundled name that is no text. -/

def flagging : Fields :=
  [("name", .str "@s/a"), ("version", .str "1"), ("jsii", .obj []),
    ("bundledDependencies", .arr [.bool true])]

def flagged : Fields :=
  [("devDependencies", .obj [("@s/a", .str "1")]), ("bundledDependencies", .arr [.bool true])]

def unhoisted : Json := .obj [("workspaces", .obj [("nohoist", .arr [.str "/True"])])]

def flagger : Library := ⟨⟨flagging⟩, ⟨.slash, ["p", "a"]⟩, "a"⟩

theorem readable_flags : Json.Readable (.arr [.bool true]) := .arr fun v hv => by
  rw [List.mem_singleton.mp hv]
  exact .bool true

theorem readable_flagging : Json.Readable (.obj flagging) := by
  refine .obj (by decide : (["name", "version", "jsii", "bundledDependencies"] : List Text).Nodup)
    fun f hf => ?_
  simp only [flagging, List.mem_cons, List.not_mem_nil, or_false] at hf
  rcases hf with rfl | rfl | rfl | rfl
  · exact .str _
  · exact .str _
  · exact readable_nil
  · exact readable_flags

theorem readable_flagged : Json.Readable (.obj flagged) := by
  refine .obj (by decide : (["devDependencies", "bundledDependencies"] : List Text).Nodup)
    fun f hf => ?_
  rcases List.mem_pair.mp hf with rfl | rfl
  · refine .obj (List.nodup_singleton _) fun f hf => ?_
    rw [List.mem_singleton.mp hf]
    exact .str _
  · exact readable_flags

theorem readable_unhoisted : unhoisted.Readable := by
  refine .obj (List.nodup_singleton _) fun f hf => ?_
  rw [List.mem_singleton.mp hf]
  refine .obj (List.nodup_singleton _) fun f hf => ?_
  rw [List.mem_singleton.mp hf]
  exact @readable_texts ["/True"]

/-- The manifest with what is set for the name. -/
def ranged : Fields := flagged.set "dependencies" (.obj [("true", .str "*")])

theorem apply_flagged :
    ({ dependencies := [(.bool true, .str "*")] } : ManifestCorrections).apply (.obj flagged) =
    .ok (.obj ranged) := by
  have hsort : Json.sort? [.bool true] = some [.bool true] := by
    rw [Json.sort?, if_pos (by rfl), List.mergeSort_singleton]
  have hsorted : Mapping.sort? [(.bool true, .str "*")] = some [(.bool true, .str "*")] := by
    simp only [Mapping.sort?, List.map_cons, List.map_nil, hsort]
    rfl
  have hmerged : ManifestCorrections.merged (Mapping.ofFields flagged) "dependencies"
      [(.bool true, .str "*")] = .ok [(.bool true, .str "*")] := by
    show ManifestCorrections.sortedMapping [(.bool true, .str "*")] = _
    rw [ManifestCorrections.sortedMapping, hsorted]
  show (do
    let deps ← ManifestCorrections.merged (Mapping.ofFields flagged) "dependencies"
      [(.bool true, .str "*")]
    let m ← Except.ok ((Mapping.ofFields flagged).set (.str "dependencies") (Mapping.toObject deps))
    return Mapping.toObject m : Except Misfit Json) = _
  rw [hmerged]
  rfl

theorem flagged_loses : EndsWith (settings ["u", "lib"]) [flagger]
    ⟨[(.bool true, .str "*")], { dependencies := [(.bool true, .str "*")] }, {}⟩ unhoisted
      (.obj ranged) := by
  have hfinds :
      Discovery.Finds (shelf flagging [(["w"], unhoisted), (["u", "package.json"], .obj flagged)])
        ⟨.slash, ["p"]⟩ "@s/" ⟨[flagger], []⟩ :=
    finds_one readable_flagging (by decide) rfl rfl rfl rfl rfl rfl rfl
  have hworkspace :
      ∀ manifest, Holds (shelf flagging [(["w"], unhoisted), (["u", "package.json"], manifest)])
        ⟨.slash, ["w"]⟩ unhoisted := fun _ => holds_document readable_unhoisted (by decide) rfl
  have hinspect : Gives (inspect (settings ["u", "lib"]))
      (shelf flagging [(["w"], unhoisted), (["u", "package.json"], .obj flagged)])
      (⟨[flagger], []⟩, .obj flagged, unhoisted,
        ⟨[(.bool true, .str "*")], { dependencies := [(.bool true, .str "*")] }, {}⟩) _ :=
    gives_inspect hfinds (holds_document readable_flagged (by decide) rfl) (hworkspace _) rfl
  have hwrite : Gives (writeDocument ⟨.slash, ["u", "package.json"]⟩ (.obj ranged))
      (shelf flagging [(["w"], unhoisted), (["u", "package.json"], .obj flagged)]) ()
      (shelf flagging [(["w"], unhoisted), (["u", "package.json"], .obj ranged)]) :=
    gives_writeText (encode?_eq (by decide)) rfl
  obtain ⟨j, hj⟩ := hinspect []
  obtain ⟨j', hj'⟩ :=
    fails_corrected (s := settings ["u", "lib"]) hinspect gives_pure rfl apply_flagged hwrite []
  have hranged : Json.Readable (.obj ranged) := readable_flagged.set _ <| by
    refine .obj (List.nodup_singleton _) fun f hf => ?_
    rw [List.mem_singleton.mp hf]
    exact .str _
  exact ⟨isResolved_settings (by decide), ⟨_, []⟩, (_, _), _, _,
    ⟨by decide, Disk.isTree_of_entries (by decide), by decide⟩, hj, hj', hworkspace _,
    holds_document hranged (by decide) rfl⟩

end Sample

/-- Corrections are lost when one file is the workspace and the manifest: the second document is
written over the first one.  A range for a name that is no text is set for its text, and
dependencies that are no object keep what is pruned. -/
theorem verify_loses :
    (∃ s libraries p workspace manifest, EndsWith s libraries p workspace manifest ∧
      (∀ l ∈ libraries, ∀ names, l.manifest.bundled = .ok names →
        ∀ name ∈ names, name.isText = true) ∧
      ¬ p.workspace.KeptIn workspace) ∧
    (∃ s libraries p workspace manifest, EndsWith s libraries p workspace manifest ∧
      s.workspacePath.parts ≠ s.manifestPath.parts ∧ ¬ p.manifest.KeptIn manifest) ∧
    ∃ s p workspace manifest vs, EndsWith s [] p workspace manifest ∧
      s.workspacePath.parts ≠ s.manifestPath.parts ∧
      manifest.field? "dependencies" = some (.arr vs) ∧
      ∃ name ∈ p.manifest.pruned, name ∈ vs := by
  refine ⟨⟨_, _, _, _, _, Sample.joined_loses, fun l hl => ?_, fun hkept => ?_⟩,
    ⟨_, _, _, _, _, Sample.flagged_loses, by decide, fun hkept => ?_⟩,
    _, _, _, _, _, Sample.listed_keeps,
    by decide, rfl, .str "x", List.mem_singleton.mpr rfl, List.mem_singleton.mpr rfl⟩
  · rw [List.mem_singleton.mp hl]
    exact Sample.rival_texts
  · obtain ⟨fs, vs, hfs, -⟩ := hkept (.str "/x") List.mem_cons_self
    cases hfs
  · obtain ⟨fs, hfs, hget⟩ := hkept.dependencies _ (List.mem_singleton.mpr rfl)
    obtain rfl := Json.obj.inj (Option.some.inj hfs)
    rw [Mapping.get?_ofFields_eq_none rfl] at hget
    cases hget

end Build

end UberPackage
