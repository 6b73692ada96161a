/-
  A run that fails before it writes.

  A verification looks at the libraries, the documents and the plan before it writes
  (`Build.inspect`, `Build.verify_eq`).  If that fails, as it does when two libraries bundle a
  package at different ranges, the run has failed and the disk is as it was; and a run that ends
  because it has corrected the manifest has changed the documents alone (`Build.run_refuses`).
-/
import UberPackage.Proofs.Act.Failure
import UberPackage.Proofs.Build.Frame
import UberPackage.Proofs.Dependency.Conflict

namespace UberPackage.Build

open Act Disk

variable {s : Settings} {w v : World} {f : Failure}

/-! ## Looking before writing -/

/-- What a verification looks at before it writes: the libraries, the manifest, the workspace and
the plan. -/
def inspect (s : Settings) : Act (Discovery.Found × Json × Json × Plan) := do
  let found ← Discovery.run s.librariesRoot s.scope
  let manifest ← readDocument s.manifestPath
  let workspace ← readDocument s.workspacePath
  let p ← plan found.libraries manifest workspace
  return (found, manifest, workspace, p)

/-- What a verification does after that. -/
def settle (s : Settings) : Discovery.Found × Json × Json × Plan → Act Verified
  | (found, manifest, workspace, p) => do
    correctWorkspace s workspace p.workspace
    correctManifest s manifest p.manifest
    record .info stage "Dependencies are correct!"
    return ⟨found.libraries, manifest, p⟩

theorem verify_eq (s : Settings) : verify s = inspect s >>= settle s := by
  simp only [verify, inspect, settle, bind_assoc, pure_bind]

theorem within_plan {R : Disk → Disk → Prop} [IsPreorder Disk R] (libraries : List Library)
    (manifest workspace : Json) : Within R (plan libraries manifest workspace) fun _ => True := by
  unfold plan
  dsimp only
  exact (within_records _).bind fun _ _ => within_orFail fun _ _ => trivial

/-- Looking changes nothing. -/
theorem within_inspect {R : Disk → Disk → Prop} [IsPreorder Disk R] (s : Settings) :
    Within R (inspect s) fun _ => True := by
  unfold inspect
  refine (within_discovery _ _).bind fun found _ => ?_
  refine (within_readDocument _).bind fun manifest _ => ?_
  refine (within_readDocument _).bind fun workspace _ => ?_
  exact (within_plan _ _ _).bind fun p _ => within_pure trivial

/-- Where looking fails, so does the run, and the disk is as it was. -/
theorem fails_of_inspect (hw : w.disk.IsFileTree) (h : Fails (inspect s) w f v) :
    Fails (verify s) w f v ∧ Fails (run s) w f v ∧ v.disk = w.disk := by
  have hverify : Fails (verify s) w f v := by
    rw [verify_eq]
    exact fails_bind.mpr (Or.inl h)
  refine ⟨hverify, fails_bind.mpr (Or.inl hverify), ?_⟩
  have heq := (within_inspect (R := Eq) s w hw).1
  rw [Fails] at h
  rw [h] at heq
  exact heq.symm

/-- Looking succeeds where there is something to find, the documents can be read and there is a
plan. -/
theorem gives_inspect {d : Disk} {found : Discovery.Found} {manifest workspace : Json} {p : Plan}
    (hfinds : Discovery.Finds d s.librariesRoot s.scope found)
    (hmanifest : Holds d s.manifestPath manifest) (hworkspace : Holds d s.workspacePath workspace)
    (hplan : (Plan.make found.libraries manifest workspace).2 = .ok p) :
    Gives (inspect s) d (found, manifest, workspace, p) d :=
  (Discovery.gives_run hfinds).bind ((gives_readDocument hmanifest).bind
    ((gives_readDocument hworkspace).bind
    (Gives.bind ((gives_records _).bind (gives_orFail hplan)) gives_pure)))

/-- A manifest that is corrected ends the verification. -/
theorem fails_corrected {d d₁ d₂ : Disk} {found : Discovery.Found}
    {manifest workspace c : Json} {p : Plan}
    (hinspect : Gives (inspect s) d (found, manifest, workspace, p) d)
    (hworkspace : Gives (correctWorkspace s workspace p.workspace) d () d₁)
    (hchanged : p.manifest.changed = true)
    (hc : p.manifest.apply manifest = .ok c)
    (hwrite : Gives (writeDocument s.manifestPath c) d₁ () d₂) (j : List Record) :
    ∃ j', Fails (verify s) ⟨d, j⟩ .corrected ⟨d₂, j'⟩ := by
  obtain ⟨j₁, hj₁⟩ := hinspect j
  obtain ⟨j₂, hj₂⟩ := hworkspace j₁
  obtain ⟨j₃, hj₃⟩ := hwrite j₂
  have hcorrect : Fails (correctManifest s manifest p.manifest) ⟨d₁, j₂⟩ .corrected ⟨d₂, j₃⟩ := by
    rw [correctManifest, hchanged, if_pos rfl]
    refine fails_bind.mpr (Or.inr ⟨c, _, does_orFail.mpr ⟨hc, rfl⟩, ?_⟩)
    exact fails_bind.mpr (Or.inr ⟨_, _, hj₃, fails_throw.mpr ⟨rfl, rfl⟩⟩)
  rw [verify_eq]
  exact ⟨j₃, fails_bind.mpr
    (Or.inr ⟨_, _, hj₁, fails_bind.mpr (Or.inr ⟨(), _, hj₂, fails_bind.mpr (Or.inl hcorrect)⟩)⟩)⟩

/-! ## Libraries in conflict -/

/-- Two of the libraries bundle a package at different ranges. -/
def InConflict (libraries : List Library) : Prop :=
  ∃ l k name range other, [l, k].Sublist libraries ∧ l.Requires name range ∧ k.Requires name other ∧
    range ≠ .null ∧ range.same other = false

/-- There is no bundle of libraries that are in conflict. -/
theorem collect_of_conflict {libraries : List Library} (h : InConflict libraries) :
    ∃ e, Bundle.collect libraries = .error e := by
  obtain ⟨l, k, name, range, other, hlk, hl, hk, hn, hdiffer⟩ := h
  cases hc : Bundle.collect libraries with
  | error e => exact ⟨e, rfl⟩
  | ok b =>
    rw [Bundle.agree_of_collect hc hlk hl hn hk] at hdiffer
    cases hdiffer

theorem fails_plan {libraries : List Library} {manifest workspace : Json} :
    Fails (plan libraries manifest workspace) w f v →
      ∃ e, (Plan.make libraries manifest workspace).2 = .error e ∧ f = .dependency e := by
  intro h
  unfold plan at h
  dsimp only at h
  obtain ⟨u, -, h⟩ := (gives_records _).fails_bind h
  obtain ⟨⟨e, he, hf⟩, -⟩ := fails_orFail.mp h
  exact ⟨e, he, hf.symm⟩

/-- Where the libraries are found and the documents are read, looking fails because there is no
plan. -/
theorem fault_of_inspect {found : Discovery.Found} {manifest workspace : Json}
    (hfound : Discovery.Finds w.disk s.librariesRoot s.scope found)
    (hmanifest : Holds w.disk s.manifestPath manifest)
    (hworkspace : Holds w.disk s.workspacePath workspace) (h : Fails (inspect s) w f v) :
    ∃ e, (Plan.make found.libraries manifest workspace).2 = .error e ∧ f = .dependency e := by
  unfold inspect at h
  obtain ⟨u, hu, h⟩ := (Discovery.gives_run hfound).fails_bind h
  obtain ⟨u₁, hu₁, h⟩ := Gives.fails_bind (gives_readDocument (hu.symm ▸ hmanifest)) h
  obtain ⟨u₂, hu₂, h⟩ := Gives.fails_bind (gives_readDocument (hu₁.trans hu ▸ hworkspace)) h
  exact fails_plan ((fails_bind.mp h).resolve_right fun ⟨_, _, _, hpure⟩ => not_fails_pure hpure)

/-- Looking at libraries in conflict fails; if all can be read, the failure is the conflict. -/
theorem fails_of_conflict {found : Discovery.Found}
    (hfound : Discovery.Finds w.disk s.librariesRoot s.scope found)
      (h : InConflict found.libraries) : ∃ f v, Fails (inspect s) w f v ∧ ∀ manifest workspace,
      Holds w.disk s.manifestPath manifest → Holds w.disk s.workspacePath workspace →
      (∀ l ∈ found.libraries, l.CanBundle) →
      ∃ name existing requested, f = .dependency (.conflict name existing requested) := by
  obtain ⟨e, he⟩ := collect_of_conflict h
  have hmake : ∀ manifest workspace, (Plan.make found.libraries manifest workspace).2 = .error e :=
    fun manifest workspace => by rw [Plan.make, he]
  rcases does_or_fails (inspect s) w with ⟨x, v, hx⟩ | ⟨f, v, hf⟩
  · -- no plan can have been made
    unfold inspect at hx
    obtain ⟨found', u, hfound', hx⟩ := does_bind.mp hx
    obtain ⟨rfl, -⟩ := (Discovery.gives_run hfound).unique hfound'
    obtain ⟨manifest, _, -, hx⟩ := does_bind.mp hx
    obtain ⟨workspace, _, -, hx⟩ := does_bind.mp hx
    obtain ⟨p, _, hplan, -⟩ := does_bind.mp hx
    unfold plan at hplan
    obtain ⟨_, _, -, hplan⟩ := does_bind.mp hplan
    have hok : (Plan.make found'.libraries manifest workspace).2 = .ok p := (does_orFail.mp hplan).1
    rw [hmake] at hok
    cases hok
  · refine ⟨f, v, hf, fun manifest workspace hmanifest hworkspace hreadable => ?_⟩
    obtain ⟨e', he', rfl⟩ := fault_of_inspect hfound hmanifest hworkspace hf
    obtain rfl := Except.error.inj (he'.symm.trans (hmake manifest workspace))
    obtain ⟨name, existing, requested, rfl⟩ := Bundle.conflict_of_collect hreadable he
    exact ⟨name, existing, requested, rfl⟩

/-! ## A manifest that has been corrected -/

section Assembling

/-- What assembling the merged tree can fail with. -/
def IsOfAssembly : Failure → Prop
  | .binding _ | .redirection _ | .file _ | .undecodable | .unencodable | .misfit _ => True
  | _ => False

theorem failsOnly_copyTree (r : Assembly.Rules) (source target : Path) :
    FailsOnly IsOfAssembly (Assembly.copyTree r source target) := by
  have hfile : ∀ e, IsOfAssembly (.file e) := fun _ => trivial
  have hstep : ∀ t : Assembly.Task, FailsOnly IsOfAssembly (t.step r) := by
    intro t
    cases t with
    | make source target => exact (failsOnly_change hfile _).bind fun _ => failsOnly_pure _
    | list source target => exact (failsOnly_ask hfile _).bind fun _ => failsOnly_pure _
    | compare source target name counterpart =>
      refine (failsOnly_ask hfile _).bind fun b => ?_
      split <;> exact failsOnly_pure _
    | classify source target name =>
      refine (failsOnly_ask hfile _).bind fun b => ?_
      split
      · exact failsOnly_pure _
      · split <;> exact failsOnly_pure _
    | redirect source target name =>
      refine (failsOnly_ask hfile _).bind fun bytes =>
        (failsOnly_decode trivial bytes).bind fun cs => ?_
      refine (failsOnly_records _).bind fun _ =>
        (failsOnly_orFail fun _ => trivial).bind fun bytes => ?_
      exact (failsOnly_decode trivial bytes).bind fun _ => failsOnly_pure _
    | write target bytes => exact (failsOnly_change hfile _).bind fun _ => failsOnly_pure _
    | copy source target => exact (failsOnly_change hfile _).bind fun _ => failsOnly_pure _
  have hrounds : ∀ n ts, FailsOnly IsOfAssembly (Assembly.rounds r n ts) := by
    intro n
    induction n with
    | zero =>
      intro ts
      cases ts with
      | nil => exact failsOnly_pure _
      | cons t ts => exact failsOnly_throw (hfile _)
    | succ n ih =>
      intro ts
      cases ts with
      | nil => exact failsOnly_pure _
      | cons t ts =>
        refine (failsOnly_mapM fun t _ => hstep t).bind fun ps => ?_
        exact (ih _).bind fun _ => failsOnly_pure _
  exact hrounds _ _

theorem failsOnly_prepare (s : Settings) (libraries : List Library) (manifest : Json) :
    FailsOnly IsOfAssembly (prepare s libraries manifest) := by
  have hfile : ∀ e, IsOfAssembly (.file e) := fun _ => trivial
  have hwrite : ∀ p t, FailsOnly IsOfAssembly (do writeText p t; return p) := fun p t =>
    (failsOnly_writeText trivial hfile p t).bind fun _ => failsOnly_pure _
  unfold prepare
  refine (failsOnly_records _).bind fun _ => ?_
  refine FailsOnly.bind ?_ fun _ => (failsOnly_orFail fun _ => trivial).bind fun uber => ?_
  · refine (failsOnly_ask hfile _).bind fun b => ?_
    split
    · exact failsOnly_change hfile _
    · exact failsOnly_pure _
  refine FailsOnly.bind (failsOnly_mapM fun l _ => ?_) fun cs => ?_
  · refine (failsOnly_records _).bind fun _ => (failsOnly_copyTree _ _ _).bind fun counts => ?_
    refine (hwrite _ _).bind fun _ => ?_
    split
    · refine FailsOnly.bind ?_ fun targets => ?_
      · refine (failsOnly_orFail fun _ => trivial).bind fun _ => ?_
        exact (failsOnly_orFail fun _ => trivial).bind fun _ => failsOnly_pure _
      · exact (hwrite _ _).bind fun _ => (hwrite _ _).bind fun _ => failsOnly_pure _
    · exact failsOnly_pure _
  · exact (hwrite _ _).bind fun _ => (failsOnly_records _).bind fun _ => failsOnly_pure _

/-- A run that ends with a corrected manifest has not assembled anything. -/
theorem fails_verify_of_corrected (h : Fails (run s) w .corrected v) :
    Fails (verify s) w .corrected v := by
  refine (fails_bind.mp h).resolve_right ?_
  rintro ⟨x, u, -, h⟩
  rcases fails_bind.mp h with h | ⟨_, _, -, h⟩
  · exact (failsOnly_prepare _ _ _ _ _ _ h).elim
  · exact not_fails_pure h

end Assembling

/-- **A run that is refused changes nothing**: where looking at the libraries, the documents or the
plan fails, as it does when two libraries bundle a package at different ranges, a verification and a
build fail just so, and the disk is as it was.  And one that ends because the manifest has been
corrected has changed the workspace and the manifest alone. -/
theorem run_refuses (hw : w.disk.IsFileTree) :
    (∀ f v, Fails (inspect s) w f v → Fails (verify s) w f v ∧ Fails (run s) w f v ∧
      v.disk = w.disk) ∧
    (∀ found, Discovery.Finds w.disk s.librariesRoot s.scope found → InConflict found.libraries →
      ∃ f v, Fails (inspect s) w f v ∧ ∀ manifest workspace,
        Holds w.disk s.manifestPath manifest → Holds w.disk s.workspacePath workspace →
        (∀ l ∈ found.libraries, l.CanBundle) →
        ∃ name existing requested, f = .dependency (.conflict name existing requested)) ∧
    (s.IsResolved → ∀ v, Fails (verify s) w .corrected v ∨ Fails (run s) w .corrected v →
      ∀ q, q ≠ s.workspacePath.parts → q ≠ s.manifestPath.parts →
      v.disk.entryAt? q = w.disk.entryAt? q) := by
  refine ⟨fun f v => fails_of_inspect hw, fun found => fails_of_conflict, fun hs v h q hq hq' => ?_⟩
  have hverify := h.elim id fails_verify_of_corrected
  have hgrows :=
    (@within_verify _ hs (fun q => q = s.workspacePath.parts ∨ q = s.manifestPath.parts)
      (fun _ => False) (Or.inl rfl) (Or.inr rfl) w hw).1
  rw [Fails] at hverify
  rw [hverify] at hgrows
  rcases hgrows.entries q with he | hin | ⟨habove, -⟩
  · exact he
  · exact absurd hin (not_or.mpr ⟨hq, hq'⟩)
  · exact habove.elim

namespace Sample

/-! Two libraries that bundle a package at different ranges, and what an earlier build has left. -/

def bundling (name range : Text) : Fields :=
  [("name", .str name), ("version", .str "1"), ("jsii", .obj []),
    ("devDependencies", .obj [("x", .str range)]),
    ("bundledDependencies", .arr [.str "x"])]

def rival (name directory range : Text) : Library :=
  ⟨⟨bundling name range⟩, ⟨.slash, ["p", directory]⟩, directory⟩

def rivals : Disk where
  entries := documents ["@s/a", "@s/b"] ++
    ([(["p", "a"], .dir), (["p", "a", "package.json"], document (.obj (bundling "@s/a" "1"))),
      (["p", "b"], .dir), (["p", "b", "package.json"], document (.obj (bundling "@s/b" "2"))),
      (["u", "lib"], .dir), (["u", "lib", "old"], .file [])] : List (Place × Entry))
  cwd := []
  tag := "t"

theorem isFileTree_rivals : rivals.IsFileTree :=
  ⟨by decide, Disk.isTree_of_entries (by decide), by decide⟩

theorem readable_bundling (name range : Text) : Json.Readable (.obj (bundling name range)) := by
  refine .obj (by decide : (["name", "version", "jsii", "devDependencies",
    "bundledDependencies"] : List Text).Nodup) fun f hf => ?_
  simp only [bundling, List.mem_cons, List.not_mem_nil, or_false] at hf
  rcases hf with rfl | rfl | rfl | rfl | rfl
  · exact .str _
  · exact .str _
  · exact readable_nil
  · refine .obj (List.nodup_singleton _) fun f hf => ?_
    rw [List.mem_singleton.mp hf]
    exact .str _
  · refine .arr fun v hv => ?_
    rw [List.mem_singleton.mp hv]
    exact .str _

theorem rivals_found : Discovery.Finds rivals ⟨.slash, ["p"]⟩ "@s/"
    ⟨[rival "@s/a" "a" "1", rival "@s/b" "b" "2"], []⟩ := by
  refine @finds_all _ ["a", "b"] _ rfl rfl rfl (by decide) (fun n hn => ?_)
    (.cons (examines_taken (readable_bundling "@s/a" "1") (by decide) rfl rfl rfl)
      (.cons (examines_taken (readable_bundling "@s/b" "2") (by decide) rfl rfl rfl) .nil))
  rcases List.mem_pair.mp hn with rfl | rfl <;> rfl

theorem rivals_conflict : InConflict [rival "@s/a" "a" "1", rival "@s/b" "b" "2"] :=
  ⟨_, _, "x", .str "1", .str "2", List.Sublist.refl _,
    ⟨_, _, _, rfl, rfl, rfl, List.mem_singleton.mpr rfl, rfl⟩,
    ⟨_, _, _, rfl, rfl, rfl, List.mem_singleton.mpr rfl, rfl⟩, nofun, rfl⟩

/-! A manifest that bundles what no library does. -/

def burdened : Json := .obj [("bundledDependencies", .arr [.str "x"])]

def unburdened : Json := .obj [("bundledDependencies", .arr [])]

/-- The disk with a manifest of the uber-package. -/
def diskWith (manifest : Json) : Disk where
  entries := [(["w"], document (.obj [])), (["u"], .dir), (["p"], .dir), (["u", "lib"], .dir),
    (["u", "lib", "old"], .file []), (["u", "package.json"], document manifest)]
  cwd := []
  tag := "t"

theorem isFileTree_burdened : (diskWith burdened).IsFileTree :=
  ⟨by decide, Disk.isTree_of_entries (by decide), by decide⟩

theorem readable_burdened : burdened.Readable := by
  refine .obj (List.nodup_singleton _) fun f hf => ?_
  rw [List.mem_singleton.mp hf]
  refine .arr fun v hv => ?_
  rw [List.mem_singleton.mp hv]
  exact .str _

/-- There is no library. -/
theorem found_none (manifest : Json) : Discovery.Finds (diskWith manifest)
    ⟨.slash, ["p"]⟩ "@s/" ⟨[], []⟩ :=
  ⟨rfl, rfl, [], fun _ => true, _, congrArg Except.ok (Text.sort_of_sorted .nil),
    fun _ hp => absurd hp List.not_mem_nil,
    .nil, rfl⟩

theorem burdened_corrected : ∃ j, Fails (verify (settings ["u", "lib"]))
    ⟨diskWith burdened, []⟩ .corrected ⟨diskWith unburdened, j⟩ := by
  have hmanifest : Holds (diskWith burdened) ⟨.slash, ["u", "package.json"]⟩ burdened :=
    holds_document readable_burdened (by decide) rfl
  have hworkspace : Holds (diskWith burdened) ⟨.slash, ["w"]⟩ (.obj []) :=
    holds_document readable_nil (by decide) rfl
  have hplan : (Plan.make [] burdened (.obj [])).2 = .ok ⟨[], { pruned := [.str "x"] }, {}⟩ := rfl
  have hwrite :
      Gives (writeDocument ⟨.slash, ["u", "package.json"]⟩ unburdened) (diskWith burdened) ()
        (diskWith unburdened) := gives_writeText (encode?_eq (by decide)) rfl
  exact fails_corrected (s := settings ["u", "lib"])
    (gives_inspect (found_none _) hmanifest hworkspace hplan) gives_pure rfl rfl hwrite []

end Sample

theorem run_refuses_sample :
    (∃ name existing requested v,
      Fails (run (Sample.settings ["u", "lib"])) ⟨Sample.rivals, []⟩
        (.dependency (.conflict name existing requested)) v ∧ v.disk = Sample.rivals) ∧
    ∃ v, Fails (verify (Sample.settings ["u", "lib"]))
      ⟨Sample.diskWith Sample.burdened, []⟩ .corrected v ∧
      ∀ q : Place, q ≠ ["w"] → q ≠ ["u", "package.json"] →
      v.disk.entryAt? q = (Sample.diskWith Sample.burdened).entryAt? q := by
  constructor
  · obtain ⟨hlooks, hconflict, -⟩ :=
      run_refuses (s := Sample.settings ["u", "lib"]) (w := ⟨Sample.rivals, []⟩)
      Sample.isFileTree_rivals
    obtain ⟨f, v, hf, hfault⟩ := hconflict _ Sample.rivals_found Sample.rivals_conflict
    have hmanifest :
        Holds Sample.rivals ⟨.slash, ["u", "package.json"]⟩ (Sample.uber ["@s/a", "@s/b"]) :=
      Sample.holds_document (Sample.readable_uber (by decide)) (by decide) rfl
    have hworkspace : Holds Sample.rivals ⟨.slash, ["w"]⟩ (.obj []) :=
      Sample.holds_document Sample.readable_nil (by decide) rfl
    have hbundle : ∀ name directory range, (Sample.rival name directory range).CanBundle :=
      fun _ _ _ => ⟨_, _, _, rfl, rfl, rfl, by decide⟩
    obtain ⟨name, existing, requested, rfl⟩ := hfault _ _ hmanifest hworkspace fun l hl => by
      rcases List.mem_pair.mp hl with rfl | rfl <;> exact hbundle _ _ _
    exact ⟨name, existing, requested, v, (hlooks _ _ hf).2⟩
  · obtain ⟨j, hj⟩ := Sample.burdened_corrected
    exact ⟨_, hj,
      (run_refuses (w := ⟨Sample.diskWith Sample.burdened, []⟩) Sample.isFileTree_burdened).2.2
      (Sample.isResolved_settings (by decide)) _ (Or.inl hj)⟩

end UberPackage.Build
