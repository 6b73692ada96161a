/-
  A build that succeeds, stage by stage.

  A build verifies, clears the merged tree, assembles the libraries one after the other and writes
  the index.  One lemma for each stage says what it has read and written when it succeeds
  (`Build.verify_does`, `Build.prepare_does`, `Build.clear_does`, `Build.assemble_does`,
  `Build.index_does`).
-/
import UberPackage.Proofs.Assembly.Run
import UberPackage.Proofs.Build.Frame
import UberPackage.Proofs.Discovery

namespace UberPackage

namespace Disk

/-- The text has been put into a file, and nothing else has changed. -/
def Puts (d d' : Disk) (place : Place) (t : Text) : Prop :=
  ∃ bytes, Utf8.encode? t = some bytes ∧ Writes d d' place bytes

namespace Puts

variable {d d' : Disk} {place q : Place} {t : Text}

theorem file (h : Puts d d' place t) :
    ∃ bytes, Utf8.encode? t = some bytes ∧ d'.entryAt? place = some (.file bytes) := by
  obtain ⟨bytes, hbytes, hw⟩ := h
  exact ⟨bytes, hbytes, by rw [hw.entries, if_pos rfl]⟩

theorem dir (h : Puts d d' place t) (hq : d.entryAt? q = some .dir) :
    d'.entryAt? q = some .dir := by
  obtain ⟨bytes, -, hw⟩ := h
  exact hw.dir hq

theorem frame (h : Puts d d' place t) (hq : q ≠ place) : d'.entryAt? q = d.entryAt? q := by
  obtain ⟨bytes, -, hw⟩ := h
  rw [hw.entries, if_neg hq]

theorem keepsFile (h : Puts d d' place t) (hq : ∃ bytes, d.entryAt? q = some (.file bytes)) :
    ∃ bytes, d'.entryAt? q = some (.file bytes) := by
  by_cases he : q = place
  · obtain ⟨bytes, -, hbytes⟩ := h.file
    exact ⟨bytes, he ▸ hbytes⟩
  · rw [h.frame he]
    exact hq

end Puts

end Disk

namespace Act

/-- A text that has been written stands in its file. -/
theorem puts_of_writeText {p : Path} {t : Text} {w w' : World} {x : Unit} (hp : p.IsResolved)
    (h : Does (writeText p t) w x w') : Disk.Puts w.disk w'.disk p.parts t := by
  obtain ⟨bytes, d, hbytes, hd, rfl⟩ := does_writeText.mp h
  have hw := Disk.writeFile_ok hd
  rw [Disk.placeOf_resolved hp] at hw
  exact ⟨bytes, hbytes, hw⟩

/-- A text that has been written, by an act that gives its path. -/
theorem puts_of_emission {p q : Path} {t : Text} {w w' : World} (hp : p.IsResolved)
    (h : Does (do writeText p t; return p) w q w') :
    Disk.Puts w.disk w'.disk p.parts t ∧ q = p := by
  obtain ⟨_, u, hwrite, hpath⟩ := does_bind.mp h
  obtain ⟨rfl, rfl⟩ := does_pure.mp hpath
  exact ⟨puts_of_writeText hp hwrite, rfl⟩

end Act

namespace Assembly

/-- A directory that has been copied has a directory for its target. -/
theorem dir_of_copyTree {r : Rules} {source target : Path} {w w' : World} {c : Counts}
    (ht : target.IsResolved) (hw : w.disk.IsFileTree)
    (h : Act.Does (copyTree r source target) w c w') :
    w'.disk.entryAt? target.parts = some .dir := by
  obtain ⟨k, hk⟩ : ∃ k, roundLimit = k + 1 := ⟨4 * 4096 - 1, rfl⟩
  rw [copyTree, hk, rounds, Act.does_bind] at h
  obtain ⟨ps, v, hps, h⟩ := h
  obtain ⟨p, u, ps', hmake, hnil, rfl⟩ := Act.does_mapM_cons.mp hps
  obtain ⟨rfl, rfl⟩ := Act.does_pure.mp hnil
  obtain ⟨c', v', hrest, h⟩ := Act.does_bind.mp h
  obtain ⟨-, rfl⟩ := Act.does_pure.mp h
  -- the first step makes the target, and the others do not take it away
  have hwithin :=
    @within_step source target (fun _ => True) (fun _ => True) r ht (fun _ _ => trivial)
      (fun _ _ => Or.inl trivial) _ (under_make source target)
  obtain ⟨-, hu, htasks⟩ := hwithin.does hw hmake
  have hdir := (Task.make_does hmake).1.dir
  rw [Disk.placeOf_resolved ht] at hdir
  refine ((@within_rounds source target (fun _ => True) (fun _ => True) r ht (fun _ _ => trivial)
    (fun _ _ => Or.inl trivial) k _ fun t hmem => ?_).does hu hrest).1.dir hdir
  obtain ⟨q, hq, hin⟩ := List.mem_flatMap.mp hmem
  obtain rfl := List.mem_singleton.mp hq
  exact htasks t hin

end Assembly

namespace Build

open Act Disk

variable {s : Settings}

/-! ## Stages -/

theorem run_does {w w' : World} {b : Built} (h : Does (run s) w b w') :
    ∃ x v counts, Does (verify s) w x v ∧ Does (prepare s x.libraries x.manifest) v counts w' ∧
      b = ⟨x.libraries, s.outputDir, counts⟩ := by
  rw [run, does_bind] at h
  obtain ⟨x, v, hx, h⟩ := h
  obtain ⟨counts, v', hcounts, h⟩ := does_bind.mp h
  obtain ⟨rfl, rfl⟩ := does_pure.mp h
  exact ⟨x, v, counts, hx, hcounts, rfl⟩

/-- A manifest that is corrected ends the run, so one with which it goes on has nothing to be
corrected. -/
theorem correctManifest_does {manifest : Json} {c : ManifestCorrections} {w v : World} {x : Unit}
    (h : Does (correctManifest s manifest c) w x v) : c.changed = false ∧ w = v := by
  unfold correctManifest at h
  cases hc : c.changed with
  | false =>
    rw [hc, if_neg Bool.false_ne_true] at h
    exact ⟨rfl, (does_pure.mp h).2⟩
  | true =>
    rw [hc, if_pos rfl] at h
    obtain ⟨_, _, -, h⟩ := does_bind.mp h
    obtain ⟨_, _, -, hthrow⟩ := does_bind.mp h
    exact absurd hthrow does_throw

/-- A plan that has been made, with what has been recorded. -/
theorem plan_does {libraries : List Library} {manifest workspace : Json} {p : Plan} {w v : World}
    (h : Does (plan libraries manifest workspace) w p v) :
    v.disk = w.disk ∧ (Plan.make libraries manifest workspace).2 = .ok p := by
  unfold plan at h
  dsimp only at h
  obtain ⟨_, u, hrecords, hgives⟩ := does_bind.mp h
  obtain ⟨hp, rfl⟩ := does_orFail.mp hgives
  exact ⟨by rw [← does_records.mp hrecords], hp⟩

/-- Verifying finds the libraries and reads the documents; the manifest agrees with the libraries,
and the workspace has been corrected if it did not. -/
theorem verify_does (hs : s.IsResolved) {w v : World} {x : Verified} (h : Does (verify s) w x v) :
    ∃ found workspace, Discovery.Finds w.disk s.librariesRoot s.scope found ∧
      x.libraries = found.libraries ∧ Holds w.disk s.manifestPath x.manifest ∧
      Holds w.disk s.workspacePath workspace ∧
      (Plan.make x.libraries x.manifest workspace).2 = .ok x.plan ∧
      x.plan.manifest.changed = false ∧
      if x.plan.workspace.changed then
        ∃ corrected, x.plan.workspace.apply workspace = .ok corrected ∧
          Puts w.disk v.disk s.workspacePath.parts corrected.write
      else v.disk = w.disk := by
  rw [verify, does_bind] at h
  obtain ⟨found, u, hfound, h⟩ := h
  obtain ⟨hu, hfinds⟩ := Discovery.run_does hfound
  obtain ⟨manifest, u₁, hread, h⟩ := does_bind.mp h
  obtain ⟨hmanifest, rfl⟩ := does_readDocument.mp hread
  obtain ⟨workspace, u₂, hread', h⟩ := does_bind.mp h
  obtain ⟨hworkspace, rfl⟩ := does_readDocument.mp hread'
  obtain ⟨p, u₄, hplan, h⟩ := does_bind.mp h
  obtain ⟨hu₄, hp⟩ := plan_does hplan
  rw [hu] at hu₄
  obtain ⟨_, u₅, hcorrect, h⟩ := does_bind.mp h
  obtain ⟨_, u₆, hcorrect', h⟩ := does_bind.mp h
  obtain ⟨_, u₇, hrecord, h⟩ := does_bind.mp h
  obtain ⟨rfl, rfl⟩ := does_pure.mp h
  obtain ⟨hunchanged, rfl⟩ := correctManifest_does hcorrect'
  have hu₇ : u₇.disk = u₅.disk := by rw [← does_records.mp hrecord]
  rw [hu] at hmanifest hworkspace
  refine ⟨found, workspace, hfinds, rfl, hmanifest, hworkspace, hp, hunchanged, ?_⟩
  unfold correctWorkspace at hcorrect
  cases hc : p.workspace.changed with
  | false =>
    rw [hc, if_neg Bool.false_ne_true] at hcorrect
    obtain ⟨-, rfl⟩ := does_pure.mp hcorrect
    rw [if_neg Bool.false_ne_true, hu₇, hu₄]
  | true =>
    rw [hc, if_pos rfl] at hcorrect
    obtain ⟨corrected, u₈, hgives', hcorrect⟩ := does_bind.mp hcorrect
    obtain ⟨hcorrected, rfl⟩ := does_orFail.mp hgives'
    obtain ⟨_, u₉, hwrite, hrecord'⟩ := does_bind.mp hcorrect
    have hputs := puts_of_writeText hs.workspacePath hwrite
    rw [hu₄] at hputs
    rw [if_pos rfl]
    refine ⟨corrected, hcorrected, ?_⟩
    rw [hu₇, ← does_records.mp hrecord']
    exact hputs

/-- Preparing clears the merged tree, assembles the libraries and writes the index. -/
theorem prepare_does {libraries : List Library} {manifest : Json} {v w' : World} {c : Counts}
    (h : Does (prepare s libraries manifest) v c w') :
    ∃ uber v₀ v₁ v₂ v₃ cs, targetsOf manifest = .ok uber ∧ v₀.disk = v.disk ∧
      Does (clear s.outputDir) v₀ () v₁ ∧
      Does (libraries.mapM (assemble s (rules s libraries) uber)) v₁ cs v₂ ∧
      Does (Emission.index s.outputDir libraries s.rootLibrary) v₂
        (s.outputDir / Emission.indexName) v₃ ∧
      v₃.disk = w'.disk ∧ c = Counts.sum cs := by
  rw [prepare, does_bind] at h
  obtain ⟨_, v₀, hrecord, h⟩ := h
  obtain ⟨_, v₁, hclear, h⟩ := does_bind.mp h
  obtain ⟨uber, u, hgives, h⟩ := does_bind.mp h
  obtain ⟨huber, rfl⟩ := does_orFail.mp hgives
  obtain ⟨cs, v₂, hcs, h⟩ := does_bind.mp h
  obtain ⟨p, v₃, hindex, h⟩ := does_bind.mp h
  obtain ⟨_, u, hrecord', h⟩ := does_bind.mp h
  obtain ⟨rfl, rfl⟩ := does_pure.mp h
  have hp : p = s.outputDir / Emission.indexName := by
    unfold Emission.index at hindex
    obtain ⟨_, u', -, hp⟩ := does_bind.mp hindex
    exact (does_pure.mp hp).1.symm
  subst hp
  refine ⟨uber, v₀, v₁, v₂, v₃, cs, huber, ?_, hclear, hcs, hindex, ?_, rfl⟩
  · rw [← does_records.mp hrecord]
  · rw [← does_records.mp hrecord']

/-- Clearing leaves nothing at the root or below. -/
theorem clear_does {root : Path} (hr : root.IsResolved) {v v' : World} {x : Unit}
    (hv : v.disk.IsFileTree) (h : Does (clear root) v x v') (q : Place) :
    v'.disk.entryAt? q = if root.parts <+: q ∧ q ≠ [] then none else v.disk.entryAt? q := by
  rw [clear, does_bind] at h
  obtain ⟨b, u, hasked, h⟩ := h
  obtain ⟨hexists, rfl⟩ := does_ask.mp hasked
  have hb := hv.exists? hr hexists
  cases b with
  | false =>
    obtain ⟨-, rfl⟩ := does_pure.mp h
    -- nothing stands at the root, so nothing stands below
    have hnone : v.disk.entryAt? root.parts = none := by
      cases he : v.disk.entryAt? root.parts with
      | none => rfl
      | some e => rw [he] at hb; cases hb
    split
    · next hq =>
      by_cases hne : root.parts = q
      · rw [← hne, hnone]
      · exact hv.none_of_prefix hq.1 hne (by rw [hnone]; simp)
    · rfl
  | true =>
    rw [if_pos rfl] at h
    obtain ⟨d, hremove, rfl⟩ := does_change.mp h
    have hd := outcome_ok hremove
    rw [removeTree, except_bind_eq_ok] at hd
    obtain ⟨place, hplace, hd⟩ := hd
    obtain rfl := (locate_resolved hr).mp hplace |>.2.2
    split at hd
    · rw [← Except.ok.inj hd]
      exact entryAt?_dropTree _ _ _
    · cases hd
    · cases hd

/-- The acts of assembling a library: copying its directory and writing its entry point, and its
bindings and its shim unless it is the root library. -/
theorem assemble_acts {rules : Assembly.Rules} {uber : Option Json} {l : Library}
    {v v' : World} {c : Counts} (h : Does (assemble s rules uber l) v c v') :
    ∃ v₀ v₁ v₂ p, v₀.disk = v.disk ∧
      Does (Assembly.copyTree rules l.root (rules.layout.directory l)) v₀ c v₁ ∧
      Does (Emission.entryPoint s.outputDir l) v₁ p v₂ ∧
      if l.shortName = s.rootLibrary then v' = v₂
      else ∃ own nested v₃ p₁ p₂, l.manifest.targets = .ok own ∧
        Binding.submodule uber own s.modulePrefix = .ok nested ∧
        Does (Emission.bindings s.outputDir l (nested.map Binding.toObject)) v₂ p₁ v₃ ∧
        Does (Emission.shim s.outputDir l) v₃ p₂ v' := by
  rw [assemble] at h
  dsimp only at h
  obtain ⟨_, v₀, hrecord, h⟩ := does_bind.mp h
  obtain ⟨counts, v₁, hcopy, h⟩ := does_bind.mp h
  obtain ⟨p, v₂, hentry, h⟩ := does_bind.mp h
  have hv₀ : v₀.disk = v.disk := by rw [← does_records.mp hrecord]
  by_cases hroot : l.shortName = s.rootLibrary
  · have hb : (l.shortName != s.rootLibrary) = false := by rw [hroot, bne_self_eq_false]
    rw [hb, if_neg Bool.false_ne_true] at h
    obtain ⟨rfl, rfl⟩ := does_pure.mp h
    exact ⟨v₀, v₁, v₂, p, hv₀, hcopy, hentry, by rw [if_pos hroot]⟩
  · rw [if_pos (bne_iff_ne.mpr hroot)] at h
    obtain ⟨targets, v₃, htargets, h⟩ := does_bind.mp h
    unfold bindings at htargets
    obtain ⟨own, u, hgives, htargets⟩ := does_bind.mp htargets
    obtain ⟨hown, rfl⟩ := does_orFail.mp hgives
    obtain ⟨nested, u, hgives', htargets⟩ := does_bind.mp htargets
    obtain ⟨hnested, rfl⟩ := does_orFail.mp hgives'
    obtain ⟨rfl, rfl⟩ := does_pure.mp htargets
    obtain ⟨p₁, v₄, hbindings, h⟩ := does_bind.mp h
    obtain ⟨p₂, v₅, hshim, h⟩ := does_bind.mp h
    obtain ⟨rfl, rfl⟩ := does_pure.mp h
    refine ⟨v₀, v₁, v₂, p, hv₀, hcopy, hentry, ?_⟩
    rw [if_neg hroot]
    exact ⟨own, nested, v₄, p₁, p₂, hown, hnested, hbindings, hshim⟩

/-- What assembling a library does: it copies its directory and writes its entry point, and its
bindings and its shim unless it is the root library. -/
theorem assemble_does (hs : s.IsResolved) {libraries : List Library}
    {uber : Option Json} {l : Library} (hl : l.shortName.IsPlain) {v v' : World} {c : Counts}
    (h : Does (assemble s (rules s libraries) uber l) v c v') :
    ∃ v₀ v₁ d₂, v₀.disk = v.disk ∧
      Does (Assembly.copyTree (rules s libraries) l.root (s.directory l)) v₀ c v₁ ∧
      Puts v₁.disk d₂ ((s.directory l).parts ++ [Emission.indexName]) (Glue.entryPoint {} l) ∧
      if l.shortName = s.rootLibrary then v'.disk = d₂
      else ∃ own nested d₃, l.manifest.targets = .ok own ∧
        Binding.submodule uber own s.modulePrefix = .ok nested ∧
        Puts d₂ d₃ ((s.directory l).parts ++ [Emission.bindingsName])
          (Emission.bindingsFile (nested.map Binding.toObject)).write ∧
        Puts d₃ v'.disk (s.shim l).parts (Glue.shim {} s.outputDir l) := by
  have hdirectory := Settings.isResolved_directory hs hl
  obtain ⟨v₀, v₁, v₂, p, hv₀, hcopy, hentry, hrest⟩ := assemble_acts h
  obtain ⟨hputs, -⟩ := puts_of_emission (hdirectory.child (by decide)) hentry
  rw [Path.parts_child (by decide)] at hputs
  refine ⟨v₀, v₁, v₂.disk, hv₀, hcopy, hputs, ?_⟩
  split at hrest
  · next hroot => rw [if_pos hroot, hrest]
  · next hroot =>
    obtain ⟨own, nested, v₃, p₁, p₂, hown, hnested, hbindings, hshim⟩ := hrest
    obtain ⟨hputs', -⟩ := puts_of_emission (hdirectory.child (by decide)) hbindings
    rw [Path.parts_child (by decide)] at hputs'
    obtain ⟨hputs'', -⟩ := puts_of_emission (Settings.isResolved_shim hs hl) hshim
    rw [if_neg hroot]
    exact ⟨own, nested, v₃.disk, hown, hnested, hputs', hputs''⟩

/-- The index stands in its file. -/
theorem index_does (hs : s.IsResolved) {libraries : List Library} {v v' : World} {p : Path}
    (h : Does (Emission.index s.outputDir libraries s.rootLibrary) v p v') :
    Puts v.disk v'.disk (s.outputDir.parts ++ [Emission.indexName])
      (Glue.index {} s.rootLibrary libraries) := by
  have hputs := (puts_of_emission (hs.outputDir.child (by decide)) h).1
  rwa [Path.parts_child (by decide)] at hputs

/-- What a build that succeeds has done, one stage after the other. -/
structure Passes (s : Settings) (w : World) (b : Built) (w' : World) (x : Verified)
    (v v₁ v₂ : World) : Prop where
  verified : Does (verify s) w x v
  libraries : b.libraries = x.libraries
  /-- The documents may have been corrected. -/
  grows : Grows (fun q => q = s.workspacePath.parts ∨ q = s.manifestPath.parts)
    (fun _ => False) w.disk v.disk
  tree : v.disk.IsFileTree
  cleared :
    ∀ q, v₁.disk.entryAt? q = if s.outputDir.parts <+: q ∧ q ≠ [] then none else v.disk.entryAt? q
  tree₁ : v₁.disk.IsFileTree
  assembled : ∃ uber cs, targetsOf x.manifest = .ok uber ∧
    Does (b.libraries.mapM (assemble s (rules s b.libraries) uber)) v₁ cs v₂
  index : Puts v₂.disk w'.disk (s.outputDir.parts ++ [Emission.indexName])
    (Glue.index {} s.rootLibrary b.libraries)
  indexed : ∃ v₃, Does (Emission.index s.outputDir b.libraries s.rootLibrary) v₂
    (s.outputDir / Emission.indexName) v₃ ∧ v₃.disk = w'.disk

theorem passes_of_run (hs : s.IsResolved) {w w' : World} {b : Built} (hw : w.disk.IsFileTree)
    (h : Does (run s) w b w') : ∃ x v v₁ v₂, Passes s w b w' x v v₁ v₂ := by
  obtain ⟨x, v, counts, hverify, hprepare, rfl⟩ := run_does h
  obtain ⟨uber, v₀, v₁, v₂, v₃, cs, huber, hv₀, hclear, hassemble, hindex, hw', -⟩ :=
    prepare_does hprepare
  obtain ⟨hgrows, hv, -⟩ := (@within_verify _ hs
    (fun q => q = s.workspacePath.parts ∨ q = s.manifestPath.parts) (fun _ => False)
    (Or.inl rfl) (Or.inr rfl)).does hw hverify
  have hv₀' : v₀.disk.IsFileTree := hv₀ ▸ hv
  obtain ⟨-, hv₁, -⟩ := (@within_clear _ hs.outputDir (fun _ => True) (fun _ => True)
    fun _ _ => trivial).does hv₀' hclear
  refine ⟨x, v, v₁, v₂, hverify, rfl, hgrows, hv,
    fun q => ?_, hv₁, ⟨uber, cs, huber, hassemble⟩, ?_,
    v₃, hindex, hw'⟩
  · rw [clear_does hs.outputDir hv₀' hclear, hv₀]
  · exact hw' ▸ index_does hs hindex

/-- A build leaves a file tree. -/
theorem isFileTree_of_run (hs : s.IsResolved) {w w' : World} {b : Built} (hw : w.disk.IsFileTree)
    (h : Does (run s) w b w') (hshort : ∀ l ∈ b.libraries, l.shortName.IsPlain) :
    w'.disk.IsFileTree := by
  obtain ⟨x, v, counts, hverify, hprepare, rfl⟩ := run_does h
  obtain ⟨-, hv, -⟩ :=
    (@within_verify _ hs (fun _ => True) (fun _ => True) trivial trivial).does hw hverify
  exact ((within_prepare hs x.manifest hshort).does hv hprepare).2.1

end Build

end UberPackage
