/-
  What a build changes.

  A library has a directory in the merged tree and a shim beside it (`Settings.Footprint`);
  assembling it changes nothing else but directories above the merged tree that are missing
  (`Build.within_assemble`).  Verifying changes the documents alone.  So, as long as no short name
  leads elsewhere, a build changes the merged tree, the shims and the documents, whatever comes of
  it (`Build.run_frame`).
-/
import UberPackage.Proofs.Assembly.Frame
import UberPackage.Proofs.Build.Success
import UberPackage.Proofs.Settings

namespace UberPackage

/-! ## Places of a library -/

namespace Settings

/-- The directory of a library in the merged tree. -/
def directory (s : Settings) (l : Library) : Path := s.outputDir / l.shortName

/-- The shim of a library, beside the merged tree. -/
def shim (s : Settings) (l : Library) : Path := s.outputDir.parent / (l.shortName ++ ".ts" : Text)

/-- The places of a library: its directory with all below it, and its shim unless it is the root
library. -/
def Footprint (s : Settings) (l : Library) (q : Place) : Prop :=
  (s.directory l).parts <+: q ∨ l.shortName ≠ s.rootLibrary ∧ q = (s.shim l).parts

variable {s : Settings} {l : Library}

theorem parts_directory (h : l.shortName.IsPlain) :
    (s.directory l).parts = s.outputDir.parts ++ Path.partsOf l.shortName := by
  rw [directory, Path.append_plain h]
  rfl

/-- A place on the way to the directory of a library is the directory or on the way to the merged
tree. -/
theorem prefix_directory (h : l.shortName.IsPlain) {q : Place} (hq : q <+: (s.directory l).parts) :
    q = (s.directory l).parts ∨ q <+: s.outputDir.parts := by
  rw [parts_directory h] at hq ⊢
  rcases Path.partsOf_plain h with hparts | hparts
  · rw [hparts, List.append_nil] at hq
    exact Or.inr hq
  · rw [hparts] at hq ⊢
    exact List.prefix_concat_iff.mp hq

/-- What is apart from the merged tree is apart from the directory of a library in it. -/
theorem unrelated_directory (h : l.shortName.IsPlain) {top : Place}
    (hapart : Place.Unrelated s.outputDir.parts top) :
    Place.Unrelated (s.directory l).parts top := by
  rw [parts_directory h]
  exact (hapart.symm.below _).symm

/-- The places of a library are in the merged tree or its shim. -/
theorem Footprint.inside (h : l.shortName.IsPlain) {q : Place} (hq : s.Footprint l q) :
    s.outputDir.parts <+: q ∨ q = (s.shim l).parts := by
  refine hq.imp (fun hd => ?_) And.right
  rw [parts_directory h] at hd
  exact (List.prefix_append _ _).trans hd

theorem isResolved_directory (hs : s.IsResolved) (h : l.shortName.IsPlain) :
    (s.directory l).IsResolved := by
  rw [directory, Path.append_plain h]
  exact hs.outputDir.down (Path.isComponent_of_mem_partsOf h)

theorem isComponent_shimName (h : l.shortName.IsPlain) :
    Text.IsComponent (l.shortName ++ ".ts" : Text) := by
  refine Text.IsComponent.append_right (by decide) ?_ h.no_slash
  have hlength : List.length (↑".ts" : Text) = 3 := rfl
  rw [List.length_append, hlength]
  omega

theorem parts_shim (h : l.shortName.IsPlain) :
    (s.shim l).parts = s.outputDir.parts.dropLast ++ [(l.shortName ++ ".ts" : Text)] :=
  Path.parts_child (isComponent_shimName h) _

theorem isResolved_shim (hs : s.IsResolved) (h : l.shortName.IsPlain) : (s.shim l).IsResolved :=
  hs.outputDir.parent.child (isComponent_shimName h)

end Settings

namespace Build

open Act Disk

variable {s : Settings}

/-! ## Assembling -/

/-- A file in the directory of a library is among the places of the library. -/
theorem footprint_child {l : Library} {n : Text} (hn : n.IsComponent) :
    s.Footprint l (s.directory l / n).parts := by
  rw [Path.parts_child hn]
  exact Or.inl (List.prefix_append _ _)

/-- Assembling a library changes its places alone, and makes directories above them. -/
theorem within_assemble (hs : s.IsResolved) (libraries : List Library)
    (uber : Option Json) {l : Library} (hl : l.shortName.IsPlain) :
    Within (Grows (s.Footprint l) (· <+: (s.directory l).parts))
      (assemble s (rules s libraries) uber l) fun _ => True := by
  have hdirectory := Settings.isResolved_directory hs hl
  unfold assemble
  refine (within_records _).bind fun _ _ => ?_
  refine (Assembly.within_copyTree _ hdirectory (fun q hq => Or.inl hq) fun q hq => Or.inr hq).bind
    fun counts _ => ?_
  refine Within.bind (P := fun _ => True) ?_ fun _ _ => ?_
  · refine (within_writeText (hdirectory.child (by decide)) (footprint_child (by decide)) _).bind
      fun _ _ => within_pure trivial
  split
  · next hroot =>
    rw [bne_iff_ne] at hroot
    refine Within.bind (P := fun _ => True) ?_ fun targets _ => ?_
    · refine (within_orFail fun _ _ => trivial).bind fun _ _ => ?_
      exact (within_orFail fun _ _ => trivial).bind fun _ _ => within_pure trivial
    refine Within.bind (P := fun _ => True) ?_ fun _ _ => ?_
    · refine (within_writeText (hdirectory.child (by decide)) (footprint_child (by decide)) _).bind
        fun _ _ => within_pure trivial
    refine Within.bind (P := fun _ => True) ?_ fun _ _ => within_pure trivial
    refine (within_writeText (Settings.isResolved_shim hs hl) (Or.inr ⟨hroot, rfl⟩) _).bind
      fun _ _ => within_pure trivial
  · exact within_pure trivial

/-- Assembling several libraries changes their places alone. -/
theorem within_assemble_all (hs : s.IsResolved) (libraries : List Library) (uber : Option Json)
    {ls : List Library} (hl : ∀ l ∈ ls, l.shortName.IsPlain) :
    Within (Grows (fun q => ∃ l ∈ ls, s.Footprint l q) (· <+: s.outputDir.parts))
      (ls.mapM (assemble s (rules s libraries) uber)) fun _ => True := by
  refine (within_mapM (P := fun _ => True) fun l hm => ?_).weaken fun _ _ => trivial
  refine (within_assemble hs libraries uber (hl l hm)).mono (fun d d' h => ?_) fun _ _ => trivial
  refine h.mono (fun q hq => ⟨l, hm, hq⟩) fun q hq => ?_
  refine (Settings.prefix_directory (hl l hm) hq).imp_left fun he => ⟨l, hm, Or.inl ?_⟩
  exact he ▸ List.prefix_refl _

/-! ## The whole run -/

section Run

variable {R : Disk → Disk → Prop} [IsPreorder Disk R]

/-- Looking for libraries changes nothing. -/
theorem within_discovery (root : Path) (scope : Text) :
    Within R (Discovery.run root scope) fun _ => True := by
  have hexamine : ∀ p : Path, Within R (Discovery.examine scope p) fun _ => True := by
    intro p
    unfold Discovery.examine
    refine (within_ask fun _ _ _ _ => trivial).bind fun b _ => ?_
    split
    · refine Within.bind (within_readDocument _) fun v _ => ?_
      exact (within_orFail fun _ _ => trivial).bind fun _ _ => within_pure trivial
    · exact within_pure trivial
  have hvisit : ∀ p : Path, Within R (Discovery.visit scope p) fun _ => True := by
    intro p
    refine (hexamine p).bind fun c _ => Within.bind (P := fun _ => True) ?_ fun _ _ =>
      within_pure trivial
    cases c with
    | taken l => exact within_pure trivial
    | skipped name reason => exact within_records _
  have hthrow :
      ∀ {α β : Type} {f : α → Act β} {e : Failure}, Within R (throw e >>= f) fun _ => True :=
    Within.bind (P := fun _ => False) within_throw fun _ h => h.elim
  unfold Discovery.run
  dsimp only
  refine (within_records _).bind fun _ _ => (within_ask fun _ _ _ _ => trivial).bind fun b _ => ?_
  split
  · exact hthrow
  refine (within_ask fun _ _ _ _ => trivial).bind fun b _ => ?_
  split
  · exact hthrow
  refine Within.bind (P := fun _ => True) ?_ fun directories _ => ?_
  · refine (within_ask fun _ _ _ _ => trivial).bind fun names _ => ?_
    exact (within_filterM fun p _ => within_ask fun _ _ _ _ => trivial).weaken fun _ _ => trivial
  refine (within_mapM fun p _ => hvisit p).bind fun cs _ => ?_
  exact (within_records _).bind fun _ _ => within_pure trivial

end Run

/-- Correcting a workspace changes it alone, and only if it has to be corrected. -/
theorem within_correctWorkspace (hs : s.IsResolved) {inside above : Place → Prop} {workspace : Json}
    {c : WorkspaceCorrections} (hin : c.changed = true → inside s.workspacePath.parts) :
    Within (Grows inside above) (correctWorkspace s workspace c) fun _ => True := by
  unfold correctWorkspace
  split
  · next hchanged =>
    refine (within_orFail fun _ _ => trivial).bind fun corrected _ => ?_
    exact (within_writeText hs.workspacePath (hin hchanged) _).bind fun _ _ => within_records _
  · exact within_pure trivial

theorem within_correctManifest (hs : s.IsResolved) {inside above : Place → Prop} {manifest : Json}
    {c : ManifestCorrections} (hin : c.changed = true → inside s.manifestPath.parts) :
    Within (Grows inside above) (correctManifest s manifest c) fun _ => True := by
  unfold correctManifest
  split
  · next hchanged =>
    refine (within_orFail fun _ _ => trivial).bind fun corrected _ => ?_
    exact (within_writeText hs.manifestPath (hin hchanged) _).bind fun _ _ => within_throw
  · exact within_pure trivial

/-- Verifying changes the documents alone. -/
theorem within_verify (hs : s.IsResolved) {inside above : Place → Prop}
    (hw : inside s.workspacePath.parts) (hm : inside s.manifestPath.parts) :
    Within (Grows inside above) (verify s) fun _ => True := by
  unfold verify
  refine (within_discovery _ _).bind fun found _ => ?_
  refine (within_readDocument _).bind fun manifest _ => ?_
  refine (within_readDocument _).bind fun workspace _ => ?_
  refine Within.bind (P := fun _ => True) ?_ fun p _ => ?_
  · unfold plan
    dsimp only
    exact (within_records _).bind fun _ _ => within_orFail fun _ _ => trivial
  refine (within_correctWorkspace hs fun _ => hw).bind fun _ _ => ?_
  refine (within_correctManifest hs fun _ => hm).bind fun _ _ => ?_
  exact (within_records _).bind fun _ _ => within_pure trivial

/-- Clearing the merged tree changes it alone. -/
theorem within_clear {root : Path} (hr : root.IsResolved) {inside above : Place → Prop}
    (hi : ∀ q, root.parts <+: q → inside q) :
    Within (Frame inside above) (clear root) fun _ => True := by
  unfold clear
  refine (within_ask fun _ _ _ _ => trivial).bind fun b _ => ?_
  split
  · have hdrop : ∀ d d' : Disk, d.removeTree root = .ok d' → d' = d.dropTree root.parts := by
      intro d d' h
      rw [removeTree, except_bind_eq_ok] at h
      obtain ⟨q, hq, h⟩ := h
      obtain rfl := (locate_resolved hr).mp hq |>.2.2
      split at h
      · exact (Except.ok.inj h).symm
      · cases h
      · cases h
    refine within_change (fun d _ => ?_) fun d d' hd h => ?_
    · cases h : d.removeTree root with
      | error f => exact Std.Refl.refl _
      | ok d' =>
        rw [hdrop d d' h]
        exact Frame.dropTree d hi
    · rw [hdrop d d' (outcome_ok h)]
      exact hd.dropTree _
  · exact within_pure trivial

/-- Assembling the merged tree anew changes it and the shims. -/
theorem within_prepare (hs : s.IsResolved) {libraries : List Library} (manifest : Json)
    (hl : ∀ l ∈ libraries, l.shortName.IsPlain) :
    Within (Frame (fun q => s.outputDir.parts <+: q ∨ ∃ l ∈ libraries, q = (s.shim l).parts)
      (· <+: s.outputDir.parts)) (prepare s libraries manifest) fun _ => True := by
  unfold prepare
  refine (within_records _).bind fun _ _ => ?_
  refine (within_clear hs.outputDir fun q hq => Or.inl hq).bind fun _ _ => ?_
  refine (within_orFail fun _ _ => trivial).bind fun uber _ => ?_
  refine Within.bind (P := fun _ => True) ?_ fun counts _ => ?_
  · refine (within_assemble_all hs libraries uber hl).mono (fun d d' h => ?_) fun _ _ => trivial
    refine h.entries.mono (fun q ⟨l, hm, hq⟩ => ?_) fun q hq => Or.inr hq
    exact (hq.inside (hl l hm)).imp_right fun he => ⟨l, hm, he⟩
  refine Within.bind (P := fun _ => True) ?_ fun _ _ => ?_
  · refine Within.bind (P := fun _ => True) ?_ fun _ _ => within_pure trivial
    refine (@within_writeText (s.outputDir.parts <+: ·) (fun _ => False) _
      (hs.outputDir.child (by decide)) ?_ _).mono (fun d d' h => ?_) fun _ _ => trivial
    · rw [Path.parts_child (by decide)]
      exact List.prefix_append _ _
    · exact h.entries.mono (fun q hq => Or.inl hq) fun q hq => hq.elim
  exact (within_records _).bind fun _ _ => within_pure trivial

/-- A verification that succeeds has found the libraries that it gives. -/
theorem verify_finds {w v : World} {x : Verified} (h : Does (verify s) w x v) :
    ∃ found u, Does (Discovery.run s.librariesRoot s.scope) w found u ∧
    x.libraries = found.libraries := by
  rw [verify, does_bind] at h
  obtain ⟨found, u, hfound, h⟩ := h
  simp only [does_bind] at h
  obtain ⟨_, _, -, _, _, -, _, _, -, _, _, -, _, _, -, _, _, -, h⟩ := h
  exact ⟨found, u, hfound, (congrArg Verified.libraries (does_pure.mp h).1).symm⟩

/-- The places that a build is meant to change: the merged tree with all that is inside of it, the
shims of the libraries directly beside it, the workspace and the manifest. -/
def Owned (s : Settings) (w : World) (q : Place) : Prop :=
  s.outputDir.parts <+: q ∨
  (∃ found v, Does (Discovery.run s.librariesRoot s.scope) w found v ∧
    ∃ l ∈ found.libraries, q = s.outputDir.parts.dropLast ++ [(l.shortName ++ ".ts" : Text)]) ∨
  q = s.workspacePath.parts ∨ q = s.manifestPath.parts

/-- **A build writes only where it should**: whatever comes of it, a place where something else
stands afterwards is one that a build is meant to change, or a directory above the merged tree that
was missing; provided that the short names of the libraries are no paths.  This is the net effect,
between the disk before the build and the one after it: in between, temporary files come and go in
the merged tree and beside the shims, the workspace and the manifest. -/
theorem run_frame (hs : s.IsResolved) {w : World} (hw : w.disk.IsFileTree)
    (hshort : ∀ found v, Does (Discovery.run s.librariesRoot s.scope) w found v →
      ∀ l ∈ found.libraries, l.shortName.IsPlain) (q : Place) :
    ((run s).runIn w).2.disk.entryAt? q = w.disk.entryAt? q ∨ Owned s w q ∨
    (q <+: s.outputDir.parts ∧ w.disk.entryAt? q = none ∧
      ((run s).runIn w).2.disk.entryAt? q = some .dir) := by
  have hverify : Within (Frame (Owned s w) (· <+: s.outputDir.parts)) (verify s) fun _ => True :=
    (@within_verify _ hs (Owned s w) _ (Or.inr (Or.inr (Or.inl rfl)))
      (Or.inr (Or.inr (Or.inr rfl)))).mono (fun _ _ h => h.entries) fun _ => id
  have hrun := (hverify.bind_at hw (f := fun x => do
      let counts ← prepare s x.libraries x.manifest
      return Built.mk x.libraries s.outputDir counts) (Q := fun _ => True) fun x v hx _ => ?_).1 q
  · exact hrun
  obtain ⟨found, u, hfound, hlibraries⟩ := verify_finds hx
  rw [hlibraries]
  refine Within.bind (P := fun _ => True) ?_ fun _ _ => within_pure trivial
  refine (within_prepare hs x.manifest (hshort found u hfound)).mono (fun d d' h => ?_) fun _ => id
  refine h.mono (fun q hq => hq.imp_right fun ⟨l, hm, hl⟩ => Or.inl ?_) fun q hq => Or.inr hq
  exact ⟨found, u, hfound, l, hm, hl.trans (Settings.parts_shim (hshort found u hfound l hm))⟩

theorem run_frame_sample :
    (Sample.settings ["u", "lib"]).IsResolved ∧ (Sample.disk 0).IsFileTree ∧
    (∀ found v, Does (Discovery.run ⟨.slash, ["p"]⟩ "@s/") ⟨Sample.disk 0, []⟩ found v →
      ∀ l ∈ found.libraries, l.shortName.IsPlain) ∧
    ∀ q, ((run (Sample.settings ["u", "lib"])).runIn ⟨Sample.disk 0, []⟩).2.disk.entryAt? q =
        (Sample.disk 0).entryAt? q ∨
      Owned (Sample.settings ["u", "lib"]) ⟨Sample.disk 0, []⟩ q ∨
      (q <+: ["u", "lib"] ∧ (Sample.disk 0).entryAt? q = none ∧
        ((run (Sample.settings ["u", "lib"])).runIn ⟨Sample.disk 0, []⟩).2.disk.entryAt? q =
          some .dir) := by
  have hshort : ∀ found v, Does (Discovery.run ⟨.slash, ["p"]⟩ "@s/") ⟨Sample.disk 0, []⟩ found v →
      ∀ l ∈ found.libraries, l.shortName.IsPlain := by
    intro found v h
    rw [Sample.found_unique Sample.finds h]
    decide
  have hs : (Sample.settings ["u", "lib"]).IsResolved := Sample.isResolved_settings (by decide)
  exact ⟨hs, Sample.isFileTree_disk, hshort, fun q => run_frame hs (w := ⟨Sample.disk 0, []⟩)
    Sample.isFileTree_disk hshort q⟩

namespace Sample

/-! A library whose short name leads out of the merged tree. -/

def stray : Library := library "@s/../x" "a" "../x"

/-- What stands at first, and then what is made, one after the other. -/
def strayEntries : List (Place × Entry) :=
  documents ["@s/../x"] ++ directory "@s/../x" "a" ++
    ([(["v"], .dir), (["v", "lib"], .dir), (["v", "x"], .dir),
      (["v", "x", "index.ts"], textFile (Glue.entryPoint {} stray)),
      (["v", "x", ".jsiirc.json"], textFile (Emission.bindingsFile none).write),
      (["x.ts"], textFile (Glue.shim {} ⟨.slash, ["v", "lib"]⟩ stray)),
      (["v", "lib", "index.ts"], textFile (Glue.index {} "core" [stray]))] : List (Place × Entry))

/-- The disk when `n` entries have been made. -/
def strayDisk (n : Nat) : Disk := { entries := strayEntries.take (6 + n), cwd := [], tag := "t" }

theorem stray_finds : Discovery.Finds (strayDisk 0) ⟨.slash, ["p"]⟩ "@s/" ⟨[stray], []⟩ :=
  finds_one (readable_fields "@s/../x") (by decide) rfl rfl rfl rfl rfl rfl rfl

theorem stray_verifies : Gives (verify (settings ["v", "lib"])) (strayDisk 0)
    ⟨[stray], uber ["@s/../x"], ⟨[], {}, {}⟩⟩ (strayDisk 0) :=
  gives_verify_uber (List.nodup_singleton _) (by decide) stray_finds rfl rfl rfl

theorem stray_assembles :
    Gives (assemble (settings ["v", "lib"]) (rules (settings ["v", "lib"]) [stray]) none stray)
    (strayDisk 0) ⟨0, 0, 1⟩ (strayDisk 6) := by
  have hcopy : Gives (Assembly.copyTree (rules (settings ["v", "lib"]) [stray]) stray.root
    ((⟨.slash, ["v", "lib"]⟩ : Path) / ("../x" : Text))) (strayDisk 0) ⟨0, 0, 1⟩ (strayDisk 3) :=
    gives_bare rfl (list_bare rfl)
  have hentry :
      Gives (Emission.entryPoint ⟨.slash, ["v", "lib"]⟩ stray) (strayDisk 3) _ (strayDisk 4) :=
    gives_put (by decide) rfl
  have hbindings :
      Gives (Emission.bindings ⟨.slash, ["v", "lib"]⟩ stray none) (strayDisk 4) _ (strayDisk 5) :=
    gives_put (by decide) rfl
  have hshim : Gives (Emission.shim ⟨.slash, ["v", "lib"]⟩ stray) (strayDisk 5) _ (strayDisk 6) :=
    gives_put (by decide) rfl
  exact gives_assemble_other (by decide) hcopy hentry rfl rfl hbindings hshim

theorem stray_runs : Gives (run (settings ["v", "lib"])) (strayDisk 0)
    ⟨[stray], ⟨.slash, ["v", "lib"]⟩, ⟨0, 0, 1⟩⟩ (strayDisk 7) := by
  have huber : targetsOf (uber ["@s/../x"]) = .ok none := rfl
  have hclear : Gives (clear (settings ["v", "lib"]).outputDir) (strayDisk 0) () (strayDisk 0) :=
    gives_clear rfl
  have hassemble : Gives ([stray].mapM
      (assemble (settings ["v", "lib"]) (rules (settings ["v", "lib"]) [stray]) none)) (strayDisk 0)
      [⟨0, 0, 1⟩] (strayDisk 6) := stray_assembles.mapM_cons gives_mapM_nil
  have hindex :
      Gives (Emission.index (settings ["v", "lib"]).outputDir [stray] "core") (strayDisk 6) _
        (strayDisk 7) := gives_put (by decide) rfl
  exact gives_run stray_verifies (gives_prepare huber hclear hassemble hindex)

end Sample

/-- A short name that is a path leads elsewhere: the shim is written into another directory, and so
is the library.  And the directory above the merged tree is made. -/
theorem run_strays : ∃ (s : Settings) (w : World), s.IsResolved ∧ w.disk.IsFileTree ∧
    ∃ b w', Does (run s) w b w' ∧
      (∃ q, w'.disk.entryAt? q ≠ w.disk.entryAt? q ∧ ¬ Owned s w q ∧ ¬ q <+: s.outputDir.parts) ∧
      ∃ q, w'.disk.entryAt? q ≠ w.disk.entryAt? q ∧ ¬ Owned s w q ∧ q <+: s.outputDir.parts := by
  obtain ⟨j, hj⟩ := Sample.stray_runs []
  have howned : ∀ q ∈ ([["x.ts"], ["v"]] : List Place),
      ¬ Owned (Sample.settings ["v", "lib"]) ⟨Sample.strayDisk 0, []⟩ q := by
    rintro q hq (hin | ⟨found, v, hfound, l, hl, hshim⟩ | hworkspace | hmanifest)
    · revert q
      decide
    · rw [Sample.found_unique Sample.stray_finds hfound] at hl
      rw [List.mem_singleton.mp hl] at hshim
      revert q
      decide
    · revert q
      decide
    · revert q
      decide
  have htree : (Sample.strayDisk 0).IsFileTree :=
    ⟨by decide, Disk.isTree_of_entries (by decide), by decide⟩
  refine ⟨Sample.settings ["v", "lib"], ⟨Sample.strayDisk 0, []⟩,
    Sample.isResolved_settings (by decide), htree,
    _, _, hj, ⟨["x.ts"], ?_, howned _ (by decide), by decide⟩, ["v"], ?_,
    howned _ (by decide), by decide⟩
  · show (Sample.strayDisk 7).entryAt? ["x.ts"] ≠ (Sample.strayDisk 0).entryAt? ["x.ts"]
    decide
  · show (Sample.strayDisk 7).entryAt? ["v"] ≠ (Sample.strayDisk 0).entryAt? ["v"]
    decide

end Build

end UberPackage
