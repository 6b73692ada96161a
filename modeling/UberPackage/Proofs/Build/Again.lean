/-
  Building again.

  A build leaves its libraries and the manifest as they were, and the workspace is corrected once.
  So after a build the same libraries are found (`Build.finds_again`), verifying has nothing to
  correct (`Build.gives_verify_again`), and the libraries can be assembled again.  The second build
  leaves the disk as the first one has left it (`Build.run_settles`).
-/
import UberPackage.Proofs.Build.Follow
import UberPackage.Proofs.Dependency.Settled

namespace UberPackage

namespace Act

open Disk

/-- A document that can be read again, put into a file that was there, is held there. -/
theorem holds_of_puts {d e : Disk} {p : Path} {v v' : Json} (h : Holds d p v) (he : e.IsFileTree)
    (hp : p.IsResolved) (hv : v'.Readable) (hputs : e.entryAt? p.parts = Entry.ofText? v'.write)
    (hsome : (e.entryAt? p.parts).isSome = true) : Holds e p v' := by
  obtain ⟨bytes, cs, hread, -, -⟩ := h
  have hname := (locate_eq_ok.mp (read_eq_ok hread).1).1
  rw [Entry.ofText?] at hputs
  cases hb : Utf8.encode? v'.write with
  | none =>
    rw [hputs, hb] at hsome
    cases hsome
  | some bytes' =>
    rw [hb] at hputs
    obtain ⟨cs', hcs', hjson⟩ := Json.read_plainLines hv hb
    refine ⟨bytes', cs', ?_, hcs', hjson⟩
    rw [Disk.read, he.stat hp hname hputs]
    rfl

/-- A text that has been written could be written. -/
theorem writable_of_emission {p q : Path} {t : Text} {w w' : World} (hp : p.IsResolved)
    (htag : Code.char '/' ∉ w.disk.tag) (h : Does (do writeText p t; return p) w q w') :
    w.disk.Writable p ∧ w'.disk.tag = w.disk.tag := by
  obtain ⟨_, u, hwrite, hpath⟩ := does_bind.mp h
  obtain ⟨rfl, rfl⟩ := does_pure.mp hpath
  obtain ⟨bytes, d, -, hd, rfl⟩ := does_writeText.mp hwrite
  obtain ⟨hwrites, hwritable⟩ := writeFile_eq hp htag hd
  exact ⟨hwritable, hwrites.tag⟩

end Act

namespace Disk

/-- A temporary file could be made beside a file that could be written. -/
theorem nameFault?_of_writable {d : Disk} {p : Path} {name : Text} (hp : p.IsResolved)
    (htag : Code.char '/' ∉ d.tag) (hn : name.IsComponent) (h : d.Writable (p / name)) :
    ∃ tag n, (p.down [temporaryName name tag n]).nameFault? = none := by
  obtain ⟨n, hresolved, hparts, -⟩ := d.temporary_eq (hp.child hn) htag
  have hname : (p / name).name = name := by
    rw [Path.name, Path.parts_child hn, List.getLast?_concat]
    rfl
  rw [candidate, hname, Path.parts_child hn, List.dropLast_concat] at hparts
  have heq : d.temporary (p / name) = p.down [temporaryName name d.tag n] := by
    refine hresolved.eq ⟨hp.anchor, fun part hpart => hresolved.parts part ?_⟩ hparts
    rw [hparts]
    exact hpart
  exact ⟨d.tag, n, heq ▸ (locate_eq_ok.mp h.temporary).1⟩

/-- The name of a temporary file is longer than that of its target. -/
theorem size_temporaryName_le {name tag t : Text} {n : Nat}
    (h : (temporaryName name tag n).HasNameUnits) (hle : t.size ≤ name.size + 5) :
    t.size ≤ (temporaryName name tag n).size := by
  rw [temporaryName] at h ⊢
  obtain ⟨h₄, hlast⟩ := Text.hasNameUnits_append.mp h
  obtain ⟨h₃, hfill⟩ := Text.hasNameUnits_append.mp h₄
  obtain ⟨h₂, htag⟩ := Text.hasNameUnits_append.mp h₃
  obtain ⟨h₁, hdot⟩ := Text.hasNameUnits_append.mp h₂
  obtain ⟨hfirst, hname⟩ := Text.hasNameUnits_append.mp h₁
  rw [Text.size_append h₄ hlast, Text.size_append h₃ hfill, Text.size_append h₂ htag,
    Text.size_append h₁ hdot,
    Text.size_append hfirst hname]
  have hlength : Text.size (↑".tmp" : Text) = 4 := rfl
  have hlength' : Text.size (↑"." : Text) = 1 := rfl
  omega

end Disk

namespace Build

open Act Disk

/-- The workspace after its correction: as it was, or with other settings for workspaces. -/
def Amends (workspace corrected : Json) : Prop :=
  corrected = workspace ∨ ∃ fs v, workspace = .obj fs ∧
  corrected = .obj (Fields.set "workspaces" v fs)

theorem Amends.ofJson {workspace corrected : Json} (h : Amends workspace corrected) {m : Manifest}
    (hm : Manifest.ofJson workspace = .ok m) : ∃ m', Manifest.ofJson corrected = .ok m' := by
  rcases h with rfl | ⟨fs, v, rfl, rfl⟩
  · exact ⟨m, hm⟩
  · exact ⟨_, rfl⟩

/-- A package that takes no part takes none when its manifest is corrected as a workspace. -/
theorem Amends.not_taken {workspace corrected : Json} (h : Amends workspace corrected) {p : Path}
    {scope : Text} (hn : ((Manifest.ofJson workspace).toOption.bind fun m =>
      (Discovery.ofManifest p scope m).taken?) = none) :
    ((Manifest.ofJson corrected).toOption.bind fun m =>
      (Discovery.ofManifest p scope m).taken?) = none := by
  rcases h with rfl | ⟨fs, v, rfl, rfl⟩
  · exact hn
  · replace hn : (Discovery.ofManifest p scope ⟨fs⟩).taken? = none := hn
    show (Discovery.ofManifest p scope ⟨Fields.set "workspaces" v fs⟩).taken? = none
    rw [Discovery.taken?_eq_none] at hn ⊢
    rwa [Manifest.skipReason?_set v (by decide) (by decide) (by decide)]

variable {s : Settings} {w w' : World} {b : Built}

/-! ## What a build leaves elsewhere -/

/-- Verifying a manifest that agrees with the libraries changes the workspace alone. -/
theorem frame_of_verify (hs : s.IsResolved) {x : Verified} {v : World}
    (h : Does (verify s) w x v) {q : Place} (hq : q ≠ s.workspacePath.parts) :
    v.disk.entryAt? q = w.disk.entryAt? q := by
  obtain ⟨_, _, -, -, -, -, -, -, hlast⟩ := verify_does hs h
  split at hlast
  · obtain ⟨_, -, hputs⟩ := hlast
    exact hputs.frame hq
  · rw [hlast]

/-- The places that a build changes: the merged tree, the shims and the workspace. -/
def Touched (s : Settings) (libraries : List Library) (q : Place) : Prop :=
  s.outputDir.parts <+: q ∨ s.IsShim libraries q ∨ q = s.workspacePath.parts

/-- A build that succeeds. -/
structure Succeeds (s : Settings) (w : World) (b : Built) (w' : World) : Prop where
  resolved : s.IsResolved
  start : w.disk.IsFileTree
  runs : Does (run s) w b w'
  named : Named b.libraries
  separated : s.Separated b.libraries

namespace Succeeds

variable (h : Succeeds s w b w')

include h

theorem tree : w'.disk.IsFileTree := isFileTree_of_run h.resolved h.start h.runs h.named.plain

theorem output : w'.disk.entryAt? s.outputDir.parts = some .dir := by
  obtain ⟨_, _, -, -, himage, -⟩ := image_of_run h.resolved h.start h.runs h.named h.separated
  have hdir := himage []
  rwa [List.append_nil] at hdir

omit h in
/-- When the documents have been verified, the merged tree and the shims change. -/
theorem frame_of_passes (hshort : ∀ l ∈ b.libraries, l.shortName.IsPlain) (hs : s.IsResolved)
    {x : Verified} {v v₁ v₂ : World} (hp : Passes s w b w' x v v₁ v₂) :
    Frame (fun q => s.outputDir.parts <+: q ∨ s.IsShim b.libraries q)
      (· <+: s.outputDir.parts) v.disk w'.disk := by
  obtain ⟨uber, cs, -, hassemble⟩ := hp.assembled
  have hcleared :
      Frame (fun q => s.outputDir.parts <+: q ∨ s.IsShim b.libraries q) (· <+: s.outputDir.parts)
        v.disk v₁.disk := fun q => by
    by_cases hq : s.outputDir.parts <+: q
    · exact Or.inr (Or.inl (Or.inl hq))
    · exact Or.inl (by rw [hp.cleared, if_neg fun hin => hq hin.1])
  obtain ⟨hgrows, -, -⟩ := (within_assemble_all hs b.libraries uber hshort).does hp.tree₁ hassemble
  have hassembled :
      Frame (fun q => s.outputDir.parts <+: q ∨ s.IsShim b.libraries q) (· <+: s.outputDir.parts)
        v₁.disk v₂.disk := by
    refine hgrows.entries.mono (fun q ⟨k, hk, hin⟩ => ?_) fun q hq => Or.inr hq
    rcases hin with hin | ⟨hroot, rfl⟩
    · rw [Settings.parts_directory (hshort k hk)] at hin
      exact Or.inl ((List.prefix_append _ _).trans hin)
    · exact Or.inr ⟨k, hk, hroot, rfl⟩
  have hindex :
      Frame (fun q => s.outputDir.parts <+: q ∨ s.IsShim b.libraries q) (· <+: s.outputDir.parts)
        v₂.disk w'.disk := fun q => by
    by_cases hq : q = s.outputDir.parts ++ [Emission.indexName]
    · exact Or.inr (Or.inl (Or.inl (hq ▸ List.prefix_append _ _)))
    · exact Or.inl (hp.index.frame hq)
  exact (hcleared.trans hassembled).trans hindex

theorem frame : Frame (Touched s b.libraries) (· <+: s.outputDir.parts) w.disk w'.disk := by
  obtain ⟨x, v, v₁, v₂, hp⟩ := passes_of_run h.resolved h.start h.runs
  have hverified :
      Frame (Touched s b.libraries) (· <+: s.outputDir.parts) w.disk v.disk := fun q => by
    by_cases hq : q = s.workspacePath.parts
    · exact Or.inr (Or.inl (Or.inr (Or.inr hq)))
    · exact Or.inl (frame_of_verify h.resolved hp.verified hq)
  refine hverified.trans ((frame_of_passes h.named.plain h.resolved hp).mono (fun q hq => ?_)
    fun q hq => Or.inr hq)
  exact hq.imp_right Or.inl

/-- Where shims are, there are files. -/
theorem file_of_shim {q : Place} (hq : s.IsShim b.libraries q) :
    ∃ bytes, w'.disk.entryAt? q = some (.file bytes) := by
  obtain ⟨l, hl, hroot, rfl⟩ := hq
  obtain ⟨⟨bytes, -, hfile⟩, -⟩ :=
    shimmed_of_run h.resolved h.separated.output_ne_nil h.start h.runs h.named.plain l hl hroot
  exact ⟨bytes, hfile⟩

/-- There is a library: without one the index has no directory to stand in. -/
theorem exists_library : ∃ l, l ∈ b.libraries := by
  refine List.exists_mem_of_ne_nil _ fun hnil => ?_
  obtain ⟨x, v, v₁, v₂, hp⟩ := passes_of_run h.resolved h.start h.runs
  obtain ⟨uber, cs, -, hassemble⟩ := hp.assembled
  rw [hnil, List.mapM_nil] at hassemble
  obtain ⟨-, rfl⟩ := does_pure.mp hassemble
  have hdir := h.output
  rw [hp.index.frame (by simp), hp.cleared,
    if_pos ⟨List.prefix_refl _, h.separated.output_ne_nil⟩] at hdir
  cases hdir

theorem exists_below_root : ∃ l ∈ b.libraries, s.librariesRoot.parts <+: l.root.parts := by
  obtain ⟨l, hl⟩ := h.exists_library
  obtain ⟨x, v, counts, hverify, -, hb⟩ := run_does h.runs
  obtain ⟨found, _, hfinds, hlibraries, -⟩ := verify_does h.resolved hverify
  refine ⟨l, hl, ?_⟩
  rw [hb] at hl
  obtain ⟨n, -, hroot, -⟩ := hfinds.mem h.start h.resolved.librariesRoot (hlibraries ▸ hl)
  rw [hroot]
  exact List.prefix_append _ _

/-- The root of the libraries is not in the merged tree. -/
theorem root_outside : ¬ s.outputDir.parts <+: s.librariesRoot.parts := by
  obtain ⟨l, hl, hbelow⟩ := h.exists_below_root
  exact fun hin => (h.separated.output l hl).1 (hin.trans hbelow)

/-! ## How long the paths are -/

/-- What assembling has written has paths that are not too long. -/
theorem names : (∃ l ∈ b.libraries, ∃ tag n,
      ((s.directory l).down [temporaryName Emission.indexName tag n]).nameFault? = none) ∧
    ∀ l ∈ b.libraries, l.shortName ≠ s.rootLibrary → (s.shim l).nameFault? = none := by
  obtain ⟨x, v, v₁, v₂, hp⟩ := passes_of_run h.resolved h.start h.runs
  obtain ⟨uber, cs, -, hassemble⟩ := hp.assembled
  have hall : ∀ l ∈ b.libraries, (∃ tag n,
      ((s.directory l).down [temporaryName Emission.indexName tag n]).nameFault? = none) ∧
      (l.shortName ≠ s.rootLibrary → (s.shim l).nameFault? = none) := by
    intro l hl
    have hplain := h.named.plain l hl
    have hdirectory := Settings.isResolved_directory h.resolved hplain
    obtain ⟨u, c, u', hturn⟩ := turn_of_run hp h.resolved h.named h.separated hassemble hl
    obtain ⟨v₀, u₁, u₂, p, hv₀, hcopy, hentry, hrest⟩ := assemble_acts hturn.assembled
    obtain ⟨-, hu₁, -⟩ :=
      (@Assembly.within_copyTree _ _ (fun _ => True) (fun _ => True) _ hdirectory
      (fun _ _ => trivial) fun _ _ => Or.inl trivial).does (hv₀ ▸ hturn.tree) hcopy
    obtain ⟨hwritable, htag⟩ := writable_of_emission (hdirectory.child (by decide)) hu₁.tag hentry
    refine ⟨nameFault?_of_writable hdirectory hu₁.tag (by decide) hwritable, fun hroot => ?_⟩
    rw [if_neg hroot] at hrest
    obtain ⟨_, _, v₃, _, _, -, -, hbindings, hshim⟩ := hrest
    obtain ⟨-, htag'⟩ :=
      writable_of_emission (hdirectory.child (by decide)) (htag ▸ hu₁.tag) hbindings
    obtain ⟨hwritable', -⟩ := writable_of_emission (Settings.isResolved_shim h.resolved hplain)
      (htag' ▸ htag ▸ hu₁.tag) hshim
    exact (locate_eq_ok.mp hwritable'.target).1
  obtain ⟨l, hl⟩ := h.exists_library
  exact ⟨⟨l, hl, (hall l hl).1⟩, fun k hk => (hall k hk).2⟩

/-- The paths down to the merged tree are not too long, nor are those of manifests in directories
there. -/
theorem nameFault?_above {p : Path} (hp : p.anchor = .slash) (hin : p.parts <+: s.outputDir.parts) :
    p.nameFault? = none ∧ (p.down [Discovery.manifestName]).nameFault? = none := by
  obtain ⟨⟨l, hl, tag, n, hname⟩, -⟩ := h.names
  have hdirectory := Settings.isResolved_directory h.resolved (h.named.plain l hl)
  have hbegins : p.parts <+: (s.directory l).parts := by
    rw [Settings.parts_directory (h.named.plain l hl)]
    exact hin.trans (List.prefix_append _ _)
  refine ⟨?_, ?_⟩
  · refine Path.nameFault?_of_prefix
      (p := (s.directory l).down [temporaryName Emission.indexName tag n])
      hdirectory.anchor hp (hbegins.trans ?_) hname
    exact List.prefix_append _ _
  · have hunits :=
      Path.hasNameUnits_of_nameFault? hname _ (List.mem_append_right _ List.mem_cons_self)
    have hmanifest : Text.HasNameUnits Discovery.manifestName := by
      unfold Text.HasNameUnits Code.IsNameUnit
      decide
    exact Path.nameFault?_of_prefix_concat hdirectory.anchor hp hbegins hmanifest
      (size_temporaryName_le hunits (by decide)) hname

/-! ## What is found again -/

/-- The names below the root of the libraries are not too long. -/
theorem nameFault?_below {found : Discovery.Found}
    (hfinds : Discovery.Finds w.disk s.librariesRoot s.scope found) {workspace : Json}
    (hworkspace : Holds w.disk s.workspacePath workspace) {n : Text}
    (hn : (w'.disk.entryAt? (s.librariesRoot.parts ++ [n])).isSome = true) :
    (s.librariesRoot.down [n]).nameFault? = none := by
  have hcomponent := (h.tree.fileName hn).isComponent
  have hdown : (s.librariesRoot.down [n]).IsResolved :=
    h.resolved.librariesRoot.down fun m hm => List.mem_singleton.mp hm ▸ hcomponent
  have habove : s.librariesRoot.parts ++ [n] <+: s.outputDir.parts →
      (s.librariesRoot.down [n]).nameFault? = none :=
    fun hin => (h.nameFault?_above hdown.anchor hin).1
  have hframe := h.frame (s.librariesRoot.parts ++ [n])
  rcases hframe with he | (hin | ⟨l, hl, hroot, he⟩ | he) | ⟨hin, -, -⟩
  · exact hfinds.nameFault? h.start h.resolved.librariesRoot (he ▸ hn)
  · rcases List.prefix_concat_iff.mp hin with he | hin
    · exact habove (he ▸ List.prefix_refl _)
    · exact absurd hin h.root_outside
  · rw [hdown.eq (Settings.isResolved_shim h.resolved (h.named.plain l hl)) he]
    exact h.names.2 l hl hroot
  · obtain ⟨bytes, cs, hread, -, -⟩ := hworkspace
    rw [hdown.eq h.resolved.workspacePath he]
    exact (locate_eq_ok.mp (read_eq_ok hread).1).1
  · exact habove hin

/-- A directory below the root that was none before is on the way to the merged tree. -/
theorem above_of_new {workspace : Json}
    (hworkspace : Holds w'.disk s.workspacePath workspace) {n : Text}
    (hdir : w'.disk.entryAt? (s.librariesRoot.parts ++ [n]) = some .dir)
    (hnew : w.disk.entryAt? (s.librariesRoot.parts ++ [n]) ≠ some .dir) :
    s.librariesRoot.parts ++ [n] <+: s.outputDir.parts := by
  rcases h.frame (s.librariesRoot.parts ++ [n]) with he | (hin | hshim | he) | ⟨hin, -, -⟩
  · exact absurd (he ▸ hdir) hnew
  · rcases List.prefix_concat_iff.mp hin with he | hin
    · exact he ▸ List.prefix_refl _
    · exact absurd hin h.root_outside
  · obtain ⟨bytes, hfile⟩ := h.file_of_shim hshim
    rw [hfile] at hdir
    cases hdir
  · obtain ⟨bytes, _, hread, -, -⟩ := hworkspace
    rw [he, read_resolved h.resolved.workspacePath hread] at hdir
    cases hdir
  · exact hin

/-- The manifest in a directory below the root is as it was, or it is the workspace, or it is no
file and on the way to the merged tree or in it. -/
theorem manifest_cases (n : Text) :
    w'.disk.entryAt? (s.librariesRoot.parts ++ [n] ++ [Discovery.manifestName]) =
      w.disk.entryAt? (s.librariesRoot.parts ++ [n] ++ [Discovery.manifestName]) ∨
    s.librariesRoot.parts ++ [n] ++ [Discovery.manifestName] = s.workspacePath.parts ∨
    (∀ bytes, w'.disk.entryAt? (s.librariesRoot.parts ++ [n] ++ [Discovery.manifestName]) ≠
      some (.file bytes)) ∧
      s.librariesRoot.parts ++ [n] <+: s.outputDir.parts := by
  have hnofile : ∀ {q : Place}, w'.disk.entryAt? q = some .dir →
      ∀ bytes, w'.disk.entryAt? q ≠ some (.file bytes) :=
    fun hdir bytes hfile => by rw [hdir] at hfile; cases hfile
  rcases h.frame (s.librariesRoot.parts ++ [n] ++ [Discovery.manifestName]) with
    he | (hin | ⟨l, hl, hroot, he⟩ | he) | ⟨hin, -, hdir⟩
  · exact Or.inl he
  · refine Or.inr (Or.inr ?_)
    rcases List.prefix_concat_iff.mp hin with he | hin
    · exact ⟨hnofile (he ▸ h.output), he ▸ List.prefix_append _ _⟩
    · rcases List.prefix_concat_iff.mp hin with he | hin
      · refine ⟨fun bytes hfile => ?_, he ▸ List.prefix_refl _⟩
        -- in the merged tree only the directory of a library can have this name
        obtain ⟨_, uber, -, -, himage, -⟩ :=
          image_of_run h.resolved h.start h.runs h.named h.separated
        rw [← he, himage, Settings.image?, if_neg (by decide)] at hfile
        obtain ⟨l, hl, hfile⟩ := Option.bind_eq_some_iff.mp hfile
        have hnil := ((s.mirror b.libraries w.disk l).image?_of_dir (y := []) rfl ?_).1
        · rw [Settings.directoryImage?, if_neg (by simp), if_neg (by simp), hnil] at hfile
          cases hfile
        · obtain ⟨hresolved, hdir⟩ :=
            library_does h.resolved h.start h.runs (List.mem_of_find?_eq_some hl)
          rw [Assembly.Mirror.original?, List.append_nil, Assembly.Mirror.top]
          exact (congrArg w.disk.entryAt? (placeOf_resolved hresolved)).trans hdir
      · exact absurd hin h.root_outside
  · rw [Settings.parts_shim (h.named.plain l hl)] at he
    have hlast := congrArg List.getLast? (List.cons.inj (List.append_inj' he rfl).2).1
    rw [Text.getLast?_source] at hlast
    exact absurd hlast (by decide)
  · exact Or.inr (Or.inl he)
  · exact Or.inr (Or.inr ⟨hnofile hdir, (List.prefix_append _ _).trans hin⟩)

/-- The workspace as the manifest in a directory. -/
theorem path_of_workspace {corrected : Json}
    (hcorrected : Holds w'.disk s.workspacePath corrected) {n : Text}
    (he : s.librariesRoot.parts ++ [n] ++ [Discovery.manifestName] = s.workspacePath.parts) :
    (s.librariesRoot.down [n]).IsResolved ∧
      s.workspacePath = s.librariesRoot.down [n] / Discovery.manifestName := by
  obtain ⟨bytes, _, hread, -⟩ := hcorrected
  have hentry := read_resolved h.resolved.workspacePath hread
  rw [← he] at hentry
  have hn := h.tree.fileNames (by rw [hentry]; rfl) n
    (List.mem_append_left _ (List.mem_append_right _ List.mem_cons_self))
  have hdown : (s.librariesRoot.down [n]).IsResolved := h.resolved.librariesRoot.down_fileName hn
  refine ⟨hdown, h.resolved.workspacePath.eq (Discovery.isResolved_manifest hdown) ?_⟩
  rw [Discovery.parts_manifest, ← he]
  rfl

section Found

variable {found : Discovery.Found} {workspace corrected : Json}
  (hfinds : Discovery.Finds w.disk s.librariesRoot s.scope found)
  (hlibraries : b.libraries = found.libraries) (hworkspace : Holds w.disk s.workspacePath workspace)
  (hcorrected : Holds w'.disk s.workspacePath corrected) (hamends : Amends workspace corrected)

include hfinds hlibraries

/-- No library is on the way to the merged tree, or has a document for its manifest. -/
theorem not_library {n : Text} (happly : s.librariesRoot.parts ++ [n] <+: s.outputDir.parts ∨
    s.librariesRoot.parts ++ [n] <+: s.workspacePath.parts) :
    Discovery.libraryAt? w.disk s.librariesRoot s.scope n = none := by
  cases hat : Discovery.libraryAt? w.disk s.librariesRoot s.scope n with
  | none => rfl
  | some l =>
    have hn := Discovery.mem_namesIn_of_libraryAt? (by rw [hat]; rfl)
    have hl : l ∈ b.libraries := by
      rw [hlibraries, hfinds.libraries_eq h.start h.resolved.librariesRoot]
      exact List.mem_filterMap.mpr ⟨n, hn, hat⟩
    obtain ⟨hroot, -⟩ := Discovery.of_libraryAt? hat
    have hparts : l.root.parts = s.librariesRoot.parts ++ [n] := by rw [hroot]; rfl
    rw [← hparts] at happly
    exact absurd happly (by simp [(h.separated.output l hl).2, (h.separated.workspace l hl).2])

include hworkspace hcorrected hamends

/-- The names below the root stand for the same libraries. -/
theorem libraryAt?_again (n : Text) : Discovery.libraryAt? w'.disk s.librariesRoot s.scope n =
    Discovery.libraryAt? w.disk s.librariesRoot s.scope n := by
  have hdirs : ∀ d : Disk, d.IsFileTree → ∀ bytes,
      d.entryAt? (s.librariesRoot.parts ++ [n] ++ [Discovery.manifestName]) = some (.file bytes) →
      d.entryAt? (s.librariesRoot.parts ++ [n]) = some .dir := fun d hd bytes hfile =>
    hd.parent (n := Discovery.manifestName) (by rw [hfile]; rfl)
  have hno : ∀ d : Disk,
      (∀ bytes, d.entryAt? (s.librariesRoot.parts ++ [n] ++ [Discovery.manifestName]) ≠
        some (.file bytes)) →
      Discovery.libraryAt? d s.librariesRoot s.scope n = none := by
    intro d hnofile
    rw [Discovery.libraryAt?, Discovery.libraryIn?_of_no_file hnofile, ite_self]
  rcases h.manifest_cases n with he | he | ⟨hnofile, hin⟩
  · by_cases hfile : ∃ bytes,
        w.disk.entryAt? (s.librariesRoot.parts ++ [n] ++ [Discovery.manifestName]) =
          some (.file bytes)
    · obtain ⟨bytes, hfile⟩ := hfile
      have hsame : w'.disk.entryAt? ((s.librariesRoot.down [n]).parts ++ [Discovery.manifestName]) =
        w.disk.entryAt? ((s.librariesRoot.down [n]).parts ++ [Discovery.manifestName]) := he
      rw [Discovery.libraryAt?, Discovery.libraryAt?, if_pos (hdirs _ h.start _ hfile),
        if_pos (hdirs _ h.tree _ (he.trans hfile)), Discovery.libraryIn?,
        Discovery.libraryIn?, hsame]
    · rw [not_exists] at hfile
      rw [hno _ hfile, hno _ fun bytes => he ▸ hfile bytes]
  · have hnone := h.not_library hfinds hlibraries (n := n) (Or.inr (he ▸ List.prefix_append _ _))
    obtain ⟨hdown, hpath⟩ := h.path_of_workspace hcorrected he
    have hfile : ∃ bytes, w.disk.entryAt? s.workspacePath.parts = some (.file bytes) := by
      obtain ⟨bytes, _, hread, -⟩ := hworkspace
      exact ⟨bytes, read_resolved h.resolved.workspacePath hread⟩
    obtain ⟨bytes, hfile⟩ := hfile
    rw [hnone]
    rw [Discovery.libraryAt?, if_pos (hdirs _ h.start bytes (he ▸ hfile)),
      Discovery.libraryIn?_of_holds hdown (hpath ▸ hworkspace)] at hnone
    rw [Discovery.libraryAt?, Discovery.libraryIn?_of_holds hdown (hpath ▸ hcorrected),
      hamends.not_taken hnone,
      ite_self]
  · rw [h.not_library hfinds hlibraries (Or.inl hin), hno _ hnofile]

omit hlibraries in
/-- Each directory below the root can be examined again. -/
theorem examines_again {n : Text}
    (hdir : w'.disk.entryAt? (s.librariesRoot.parts ++ [n]) = some .dir) :
    ∃ c, Discovery.Examines w'.disk s.scope (s.librariesRoot.down [n]) c := by
  have hcomponent := (h.tree.fileName (x := s.librariesRoot.parts) (by rw [hdir]; rfl)).isComponent
  have hdown : (s.librariesRoot.down [n]).IsResolved :=
    h.resolved.librariesRoot.down fun m hm => List.mem_singleton.mp hm ▸ hcomponent
  have hmanifest := Discovery.isResolved_manifest hdown
  have hparts : (s.librariesRoot.down [n] / Discovery.manifestName).parts =
      s.librariesRoot.parts ++ [n] ++ [Discovery.manifestName] := Discovery.parts_manifest _
  -- where there is no file, nothing but the length of the path could be wrong
  have hmissing :
      (∀ bytes, w'.disk.entryAt? (s.librariesRoot.parts ++ [n] ++ [Discovery.manifestName]) ≠
        some (.file bytes)) → ∃ c, Discovery.Examines w'.disk s.scope
          (s.librariesRoot.down [n]) c := by
    intro hnofile
    have hname : (s.librariesRoot.down [n] / Discovery.manifestName).nameFault? = none := by
      by_cases hdir' : w.disk.entryAt? (s.librariesRoot.parts ++ [n]) = some .dir
      · obtain ⟨c, hc⟩ := hfinds.examines h.start h.resolved.librariesRoot hdir'
        exact hc.nameFault? h.start hdir'
      · rw [Path.append_component (by decide)]
        exact (h.nameFault?_above hdown.anchor (h.above_of_new hcorrected hdir hdir')).2
    refine ⟨_, .missing ?_⟩
    have hreaches : w'.disk.Reaches (s.librariesRoot.down [n] / Discovery.manifestName).parts := by
      rw [Discovery.parts_manifest]
      refine reaches_concat.mpr ⟨h.tree.reaches (x := s.librariesRoot.parts ++ [n])
        (by rw [hdir]; rfl), hdir, ?_⟩
      decide
    rw [isFile?, probe_of_reaches hmanifest hname hreaches, except_ok_bind, hparts]
    split
    · next bytes hfile => exact absurd (hfile) (hnofile bytes)
    · rfl
  rcases h.manifest_cases n with he | he | ⟨hnofile, -⟩
  · by_cases hfile : ∃ bytes,
        w.disk.entryAt? (s.librariesRoot.parts ++ [n] ++ [Discovery.manifestName]) =
          some (.file bytes)
    · obtain ⟨bytes, hfile⟩ := hfile
      have hdir' : w.disk.entryAt? (s.librariesRoot.parts ++ [n]) = some .dir :=
        h.start.parent (n := Discovery.manifestName) (by rw [hfile]; rfl)
      obtain ⟨c, hc⟩ := hfinds.examines h.start h.resolved.librariesRoot hdir'
      exact ⟨c, hc.again h.start h.tree hdown hfile he⟩
    · rw [not_exists] at hfile
      exact hmissing fun bytes => he ▸ hfile bytes
  · obtain ⟨-, hpath⟩ := h.path_of_workspace hcorrected he
    rw [hpath] at hworkspace hcorrected
    have hdir' : w.disk.entryAt? (s.librariesRoot.parts ++ [n]) = some .dir := by
      obtain ⟨bytes, _, hread, -⟩ := hworkspace
      refine h.start.parent (n := Discovery.manifestName) ?_
      rw [← hparts, read_resolved hmanifest hread]
      rfl
    obtain ⟨c, hc⟩ := hfinds.examines h.start h.resolved.librariesRoot hdir'
    obtain ⟨m, hm⟩ := hc.ofJson hworkspace
    obtain ⟨m', hm'⟩ := hamends.ofJson hm
    exact ⟨_, .manifest (Discovery.isFile?_of_holds hcorrected) hcorrected hm'⟩
  · exact hmissing hnofile

/-- The same libraries are found again. -/
theorem finds_again : ∃ found', Discovery.Finds w'.disk s.librariesRoot s.scope found' ∧
    found'.libraries = b.libraries := by
  have hr := h.resolved.librariesRoot
  have hroot :
      w.disk.entryAt? s.librariesRoot.parts = some .dir ∧ s.librariesRoot.nameFault? = none := by
    obtain ⟨_, _, _, hlist, -⟩ := hfinds.candidates
    exact ⟨(list_resolved hr hlist).1, (locate_eq_ok.mp (list_eq_ok hlist).1).1⟩
  have hroot' : w'.disk.entryAt? s.librariesRoot.parts = some .dir := by
    obtain ⟨l, hl, hbelow⟩ := h.exists_below_root
    rcases h.frame s.librariesRoot.parts with he | (hin | ⟨k, hk, hrootk, he⟩ | he) | ⟨-, -, hdir⟩
    · rw [he, hroot.1]
    · exact absurd hin h.root_outside
    · exact absurd (he ▸ hbelow) ((h.separated.shim k hk hrootk).2.2.2 l hl).2
    · exact absurd (he ▸ hbelow) (h.separated.workspace l hl).1
    · exact hdir
  obtain ⟨found', hfinds'⟩ := @Discovery.Finds.of_examines _ s.scope _ h.tree hr hroot.2 hroot'
    (fun n hn => h.nameFault?_below hfinds hworkspace hn)
    fun n hdir => h.examines_again hfinds hworkspace hcorrected hamends hdir
  refine ⟨found', hfinds', ?_⟩
  rw [hfinds'.libraries_eq h.tree hr, hlibraries, hfinds.libraries_eq h.start hr]
  exact Discovery.filterMap_libraryAt?_congr h.start.distinct h.tree.distinct
    (h.libraryAt?_again hfinds hlibraries hworkspace hcorrected hamends)

end Found

/-! ## Verifying again -/

/-- A place that a build does not change: neither in the merged tree nor above it, and no shim. -/
theorem stays {x : Verified} {v v₁ v₂ : World} (hp : Passes s w b w' x v v₁ v₂) {q : Place}
    (hq : Place.Unrelated s.outputDir.parts q) (hshim : ¬ s.IsShim b.libraries q) :
    w'.disk.entryAt? q = v.disk.entryAt? q := by
  rcases frame_of_passes h.named.plain h.resolved hp q with he | (hin | hin) | ⟨habove, -, -⟩
  · exact he
  · exact absurd hin hq.1
  · exact absurd hin hshim
  · exact absurd habove hq.2

/-- The workspace is left as it agrees with the libraries. -/
theorem workspace_again {x : Verified} {v v₁ v₂ : World} (hp : Passes s w b w' x v v₁ v₂)
    {workspace : Json} (hworkspace : Holds w.disk s.workspacePath workspace)
    (hplan : (Plan.make x.libraries x.manifest workspace).2 = .ok x.plan)
    (hunchanged : x.plan.manifest.changed = false)
    (hlast : if x.plan.workspace.changed then
        ∃ corrected, x.plan.workspace.apply workspace = .ok corrected ∧
          Puts w.disk v.disk s.workspacePath.parts corrected.write
      else v.disk = w.disk) :
    ∃ corrected p, Holds w'.disk s.workspacePath corrected ∧ Amends workspace corrected ∧
      (Plan.make x.libraries x.manifest corrected).2 = .ok p ∧ p.workspace.changed = false ∧
      p.manifest.changed = false := by
  have hstays : w'.disk.entryAt? s.workspacePath.parts = v.disk.entryAt? s.workspacePath.parts := by
    refine h.stays hp h.separated.output_workspace ?_
    rintro ⟨l, hl, hroot, he⟩
    exact (h.separated.shim l hl hroot).2.2.1.1 (he ▸ List.prefix_refl _)
  split at hlast
  · next hchanged =>
    obtain ⟨corrected, hcorrected, hputs⟩ := hlast
    obtain ⟨p, hplan', hworkspace', hmanifest'⟩ :=
      Plan.make_again hplan hunchanged hchanged hcorrected
    obtain ⟨u, fs, entries, names, hu, rfl, -, -⟩ := Plan.objects_of_make hplan
    obtain ⟨old, entries', hcorrects, rfl⟩ :=
      WorkspaceCorrections.corrects_of_apply hchanged hcorrected
    have hreadable : Json.Readable (.obj fs) := by
      obtain ⟨_, _, -, -, hjson⟩ := hworkspace
      exact Json.readable_of_read hjson
    have hnohoist : ∀ v ∈ x.plan.workspace.nohoist, v.Readable := by
      rw [hu] at hplan
      obtain ⟨bundle, -, -, hofFindings⟩ := Plan.make_eq_ok.mp hplan
      rw [hofFindings]
      intro v hv
      obtain ⟨t, -, rfl⟩ := List.mem_map.mp hv
      exact .str t
    refine ⟨_, p, ?_, Or.inr ⟨fs, _, rfl, rfl⟩, hplan', hworkspace', hmanifest'⟩
    refine holds_of_puts hworkspace h.tree h.resolved.workspacePath
      (hcorrects.readable hreadable hnohoist) (hstays.trans hputs.ofText?) ?_
    obtain ⟨bytes, -, hfile⟩ := hputs.file
    rw [hstays, hfile]
    rfl
  · next hchanged =>
    rw [hlast] at hstays
    exact ⟨workspace, x.plan, Discovery.holds_again hworkspace h.start h.tree
      h.resolved.workspacePath hstays, Or.inl rfl,
      hplan, by simpa using hchanged, hunchanged⟩

/-- Verifying again finds the same libraries and the same manifest, and has nothing to correct. -/
theorem gives_verify_again {x : Verified} {v v₁ v₂ : World} (hp : Passes s w b w' x v v₁ v₂) :
    ∃ p, Gives (verify s) w'.disk ⟨x.libraries, x.manifest, p⟩ w'.disk := by
  obtain ⟨found, workspace, hfinds, hlibraries, hmanifest, hworkspace, hplan, hunchanged, hlast⟩ :=
    verify_does h.resolved hp.verified
  obtain ⟨corrected, p, hcorrected, hamends, hplan', hworkspace', hmanifest'⟩ :=
    h.workspace_again hp hworkspace hplan hunchanged hlast
  obtain ⟨found', hfinds', hlibraries'⟩ :=
    h.finds_again hfinds (hp.libraries.trans hlibraries) hworkspace hcorrected hamends
  have hholds : Holds w'.disk s.manifestPath x.manifest := by
    refine Discovery.holds_again hmanifest h.start h.tree h.resolved.manifestPath ?_
    rw [h.stays hp h.separated.output_manifest ?_, frame_of_verify h.resolved hp.verified ?_]
    · exact fun he => h.separated.documents.1 (he ▸ List.prefix_refl _)
    · rintro ⟨l, hl, hroot, he⟩
      exact (h.separated.shim l hl hroot).2.1.1 (he ▸ List.prefix_refl _)
  have hsame : x.libraries = found'.libraries := hp.libraries.symm.trans hlibraries'.symm
  refine ⟨p, ?_⟩
  rw [hsame] at hplan' ⊢
  exact gives_verify hfinds' hholds hcorrected hplan' hworkspace' hmanifest'

/-! ## Assembling again -/

/-- The merged tree can be cleared. -/
theorem gives_clear_again : Gives (clear s.outputDir) w'.disk ()
    (w'.disk.dropTree s.outputDir.parts) := by
  have hname := (h.nameFault?_above h.resolved.outputDir.anchor (List.prefix_refl _)).1
  have hreaches := h.tree.reaches (x := s.outputDir.parts) (by rw [h.output]; rfl)
  refine gives_clear_tree ?_ ?_
  · rw [Disk.exists?, probe_of_reaches h.resolved.outputDir hname hreaches, h.output]
    rfl
  · rw [removeTree, (locate_resolved h.resolved.outputDir).mpr ⟨hname, hreaches, rfl⟩,
      except_ok_bind, h.output]
    rfl

/-- With the merged tree cleared, the disk is ahead of what it was when the libraries were
assembled. -/
theorem ahead {x : Verified} {v v₁ v₂ : World} (hp : Passes s w b w' x v v₁ v₂) :
    s.Ahead b.libraries v₁.disk v₁.disk (w'.disk.dropTree s.outputDir.parts) := by
  obtain ⟨uber, cs, -, hassemble⟩ := hp.assembled
  obtain ⟨hgrows, -, -⟩ :=
    (within_assemble_all h.resolved b.libraries uber h.named.plain).does hp.tree₁ hassemble
  refine ⟨hp.tree₁, h.tree.dropTree _, ?_, fun q => ?_⟩
  · obtain ⟨bytes, -, hwrites⟩ := hp.index
    exact hwrites.tag.trans hgrows.tag
  · by_cases hq : s.outputDir.parts <+: q
    · have hne : q ≠ [] := fun hnil => h.separated.output_ne_nil (List.prefix_nil.mp (hnil ▸ hq))
      exact Or.inl (by rw [entryAt?_dropTree, hp.cleared, if_pos ⟨hq, hne⟩, if_pos ⟨hq, hne⟩])
    · rw [entryAt?_dropTree, hp.cleared, if_neg fun hin => hq hin.1, if_neg fun hin => hq hin.1]
      have hcleared := hp.cleared q
      rw [if_neg fun hin => hq hin.1] at hcleared
      have hframe := frame_of_passes h.named.plain h.resolved hp q
      rcases hframe with he | (hin | hshim) | ⟨habove, hnone, hdir⟩
      · exact Or.inl he
      · exact absurd hin hq
      · obtain ⟨bytes, hfile⟩ := h.file_of_shim hshim
        refine Or.inr (Or.inr ⟨hshim, fun hdir => ?_, bytes, hfile⟩)
        have hdir' := hp.index.dir (hgrows.dir (hcleared.trans hdir))
        rw [hfile] at hdir'
        cases hdir'
      · exact Or.inr (Or.inl
          ⟨⟨habove, fun he => hq (he ▸ List.prefix_refl _), hcleared.trans hnone⟩, hnone, hdir⟩)

/-- A build can be made again, and leaves each entry as it was. -/
theorem gives_run_again :
    ∃ b' d, Gives (run s) w'.disk b' d ∧ ∀ q, d.entryAt? q = w'.disk.entryAt? q := by
  obtain ⟨x, v, v₁, v₂, hp⟩ := passes_of_run h.resolved h.start h.runs
  obtain ⟨uber, cs, huber, hassemble⟩ := hp.assembled
  obtain ⟨v₃, hindex, hlast⟩ := hp.indexed
  obtain ⟨p, hverify⟩ := h.gives_verify_again hp
  have hlibrary : ∀ l ∈ b.libraries, v₁.disk.entryAt? l.root.parts = some .dir := fun l hl => by
    rw [hp.cleared, if_neg fun hin => (h.separated.output l hl).1 hin.1,
      frame_of_verify h.resolved hp.verified,
      (library_does h.resolved h.start h.runs hl).2]
    exact fun he => (h.separated.workspace l hl).1 (he ▸ List.prefix_refl _)
  have hfollows : Follows (s.Ahead b.libraries v₁.disk)
      (b.libraries.mapM (assemble s (rules s b.libraries) uber)) := follows_mapM fun l hl =>
    follows_assemble h.resolved h.separated h.named hl (library_does h.resolved h.start h.runs hl).1
      (hlibrary l hl) hp.tree₁
  obtain ⟨e₂, hassemble', hahead⟩ := hfollows _ _ _ hassemble _ (h.ahead hp)
  obtain ⟨e₃, hindex', hahead'⟩ := follows_index h.resolved h.separated _ _ _ hindex _ hahead
  rw [hlast] at hahead'
  rw [hp.libraries] at hassemble' hindex'
  have hrun := gives_run hverify (gives_prepare huber h.gives_clear_again hassemble' hindex')
  refine ⟨_, e₃, hrun, fun q => ?_⟩
  rcases hahead'.entries q with he | ⟨⟨habove, hne, -⟩, hnone, -⟩ | ⟨⟨l, hl, hroot, rfl⟩, -, -⟩
  · exact he
  · -- above the merged tree all are directories in the end
    rw [h.tree.dir_of_prefix habove hne (by rw [h.output]; rfl)] at hnone
    cases hnone
  · -- both builds have written the text of the shim
    obtain ⟨j', hdoes⟩ := hrun []
    obtain ⟨⟨bytes, hbytes, hfile⟩, -⟩ :=
      shimmed_of_run h.resolved h.separated.output_ne_nil h.start h.runs h.named.plain l hl hroot
    obtain ⟨⟨bytes', hbytes', hfile'⟩, -⟩ := shimmed_of_run h.resolved h.separated.output_ne_nil
      (w := ⟨w'.disk, []⟩) h.tree hdoes (hp.libraries ▸ h.named.plain) l (hp.libraries ▸ hl) hroot
    rw [hfile', hfile, Option.some.inj (hbytes'.symm.trans hbytes)]

end Succeeds

/-- **The merged tree is a function of the sources, and building is idempotent**: when the places of
a build are not inside one another, and the short names of the libraries are ordinary, different and
not that of the index, a build that succeeds leaves at each place of the merged tree what the
libraries, the manifest and the settings tell, whatever stood there before.  And a second build
succeeds and leaves each entry of the disk as it is. -/
theorem run_settles (hs : s.IsResolved) (hw : w.disk.IsFileTree) (h : Does (run s) w b w')
    (hplaces : (s.places b.libraries).Pairwise Place.Unrelated)
    (hshort : ∀ l ∈ b.libraries, l.shortName.IsComponent ∧ l.shortName ≠ Emission.indexName)
    (hdiffer : b.libraries.Pairwise fun l k => l.shortName ≠ k.shortName) :
    (∃ manifest uber, Holds w.disk s.manifestPath manifest ∧ targetsOf manifest = .ok uber ∧
      (∀ y, w'.disk.entryAt? (s.outputDir.parts ++ y) = s.image? b.libraries uber w.disk y) ∧
      ∀ l ∈ b.libraries, ∀ z, (s.mirror b.libraries w.disk l).Defined z) ∧
    ∃ b' w'', Does (run s) w' b' w'' ∧ ∀ q, w''.disk.entryAt? q = w'.disk.entryAt? q := by
  have hnamed : Named b.libraries :=
    ⟨fun l hl => (hshort l hl).1, fun l hl => (hshort l hl).2, hdiffer⟩
  have hsucceeds : Succeeds s w b w' := ⟨hs, hw, h, hnamed, Settings.separated_of_places hplaces⟩
  refine ⟨image_of_run hs hw h hnamed hsucceeds.separated, ?_⟩
  obtain ⟨b', d, hgives, hsame⟩ := hsucceeds.gives_run_again
  obtain ⟨j, hj⟩ := hgives w'.journal
  exact ⟨b', ⟨d, j⟩, hj, hsame⟩

theorem run_settles_sample :
    (Sample.settings ["u", "lib"]).IsResolved ∧ (Sample.disk 0).IsFileTree ∧
    ∃ b w', Does (run (Sample.settings ["u", "lib"])) ⟨Sample.disk 0, []⟩ b w' ∧
      ((Sample.settings ["u", "lib"]).places b.libraries).Pairwise Place.Unrelated ∧
      (∀ l ∈ b.libraries, l.shortName.IsComponent ∧ l.shortName ≠ Emission.indexName) ∧
      (b.libraries.Pairwise fun l k => l.shortName ≠ k.shortName) ∧
      (∃ manifest uber, Holds (Sample.disk 0) ⟨.slash, ["u", "package.json"]⟩ manifest ∧
        targetsOf manifest = .ok uber ∧
        (∀ y, w'.disk.entryAt? ((["u", "lib"] : Place) ++ y) =
          (Sample.settings ["u", "lib"]).image? b.libraries uber (Sample.disk 0) y) ∧
        ∀ l ∈ b.libraries, ∀ z,
        ((Sample.settings ["u", "lib"]).mirror b.libraries (Sample.disk 0) l).Defined z) ∧
      w'.disk.entryAt? ["u", "lib", "core", "y.ts"] = some (.file Sample.redirected) ∧
      ∃ b' w'', Does (run (Sample.settings ["u", "lib"])) w' b' w'' ∧
        ∀ q, w''.disk.entryAt? q = w'.disk.entryAt? q := by
  obtain ⟨j, hj⟩ := Sample.runs []
  have hs : (Sample.settings ["u", "lib"]).IsResolved := Sample.isResolved_settings (by decide)
  have hplaces :
      ((Sample.settings ["u", "lib"]).places [Sample.a, Sample.core]).Pairwise Place.Unrelated := by
    decide
  have hshort : ∀ l ∈ [Sample.a, Sample.core], l.shortName.IsComponent ∧
      l.shortName ≠ Emission.indexName := by
    decide
  have hdiffer : [Sample.a, Sample.core].Pairwise fun l k => l.shortName ≠ k.shortName := by decide
  obtain ⟨himage, hagain⟩ := run_settles hs Sample.isFileTree_disk hj hplaces hshort hdiffer
  exact ⟨hs, Sample.isFileTree_disk, _, _, hj, hplaces, hshort, hdiffer, himage, rfl, hagain⟩

end Build

end UberPackage
