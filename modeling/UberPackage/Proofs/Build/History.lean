/-
  Builds one after the other.

  The merged tree is cleared by each build, but the shims stand beside it.  A build takes no file
  beside the merged tree away (`Build.keepsFile_of_run`), so the shims of all builds are left in the
  end, also those of libraries that are gone (`Build.Builds.shims_remain`, `Build.builds_stale`).
-/
import UberPackage.Proofs.Build.Apart

namespace UberPackage

namespace Build

open Act Disk

variable {s : Settings} {w w' : World} {b : Built}

/-! ## One build -/

/-- Shims of libraries with the same place are the same. -/
theorem shim_congr {l k : Library} (hl : l.shortName.IsPlain) (hk : k.shortName.IsPlain)
    (h : (s.shim l).parts = (s.shim k).parts) :
    Glue.shim {} s.outputDir l = Glue.shim {} s.outputDir k := by
  rw [Settings.parts_shim hl, Settings.parts_shim hk] at h
  have hshort : l.shortName = k.shortName :=
    List.append_cancel_right (List.cons.inj (List.append_cancel_left h)).1
  rw [Glue.shim, Glue.shim, hshort]

/-- The text stands in the file of the shim, which is not in the merged tree. -/
structure Shimmed (s : Settings) (d : Disk) (l : Library) : Prop where
  text : ∃ bytes, Utf8.encode? (Glue.shim {} s.outputDir l) = some bytes ∧
    d.entryAt? (s.shim l).parts = some (.file bytes)
  beside : ¬ s.outputDir.parts <+: (s.shim l).parts

/-- A shim that has been written is not in the place of the merged tree. -/
theorem shimmed_of_assemble (hs : s.IsResolved) (hout : s.outputDir.parts ≠ [])
    {libraries : List Library} {uber : Option Json} {l : Library} (hl : l.shortName.IsPlain)
    (hroot : l.shortName ≠ s.rootLibrary) {v v' : World} {c : Counts} (hv : v.disk.IsFileTree)
    (h : Does (assemble s (rules s libraries) uber l) v c v') : Shimmed s v'.disk l := by
  obtain ⟨-, hv', -⟩ := (within_assemble hs libraries uber hl).does hv h
  have hdir := (standing_of_assemble hs hl hv h).directory
  obtain ⟨_, _, _, -, -, -, hrest⟩ := assemble_does hs hl h
  rw [if_neg hroot] at hrest
  obtain ⟨_, _, _, -, -, -, hshim⟩ := hrest
  obtain ⟨bytes, hencode, hfile⟩ := hshim.file
  refine ⟨⟨bytes, hencode, hfile⟩, fun hin => ?_⟩
  -- it has as many parts as the root of the merged tree, where a directory is
  have hsame : s.outputDir.parts = (s.shim l).parts := by
    refine hin.eq_of_length_le ?_
    have hpos := List.length_pos_iff.mpr hout
    rw [Settings.parts_shim hl, List.length_append, List.length_dropLast, List.length_singleton]
    omega
  have houtput : v'.disk.entryAt? s.outputDir.parts = some .dir := by
    rw [Settings.parts_directory hl] at hdir
    by_cases he : s.outputDir.parts = s.outputDir.parts ++ Path.partsOf l.shortName
    · rw [he, hdir]
    · exact hv'.dir_of_prefix (List.prefix_append _ _) he (by rw [hdir]; rfl)
  rw [hsame, hfile] at houtput
  cases houtput

/-- All shims are written when all libraries have been assembled. -/
theorem shimmed_of_assemble_all (hs : s.IsResolved) (hout : s.outputDir.parts ≠ [])
    {libraries : List Library} {uber : Option Json} {ls : List Library}
    (hshort : ∀ k ∈ ls, k.shortName.IsPlain) {v v' : World} {cs : List Counts}
    (hv : v.disk.IsFileTree) (h : Does (ls.mapM (assemble s (rules s libraries) uber)) v cs v') :
    ∀ l ∈ ls, l.shortName ≠ s.rootLibrary → Shimmed s v'.disk l := by
  induction ls generalizing v cs with
  | nil => exact fun l hl => absurd hl List.not_mem_nil
  | cons k ks ih =>
    obtain ⟨c, u, cs', hturn, hrest, rfl⟩ := does_mapM_cons.mp h
    have hk := hshort k List.mem_cons_self
    have hks : ∀ m ∈ ks, m.shortName.IsPlain := fun m hm => hshort m (List.mem_cons_of_mem _ hm)
    obtain ⟨-, hu, -⟩ := (within_assemble hs libraries uber hk).does hv hturn
    have hothers := ih hks hu hrest
    intro l hl hroot
    rcases List.mem_cons.mp hl with rfl | hl
    · obtain ⟨⟨bytes, hencode, hfile⟩, hbeside⟩ := shimmed_of_assemble hs hout hk hroot hv hturn
      refine ⟨?_, hbeside⟩
      obtain ⟨hgrows, -, -⟩ := (within_assemble_all hs libraries uber hks).does hu hrest
      rcases hgrows.entries (s.shim l).parts with he | ⟨m, hm, hin⟩ | ⟨-, hnone, -⟩
      · exact ⟨bytes, hencode, he.trans hfile⟩
      · rcases hin with hin | ⟨hroot', hplace⟩
        · rw [Settings.parts_directory (hks m hm)] at hin
          exact absurd ((List.prefix_append _ _).trans hin) hbeside
        · -- another library with this shim writes the same text
          rw [shim_congr hk (hks m hm) hplace, hplace]
          exact (hothers m hm hroot').text
      · rw [hfile] at hnone
        cases hnone
    · exact hothers l hl hroot

/-- A build that succeeds has written the shims of its libraries. -/
theorem shimmed_of_run (hs : s.IsResolved) (hout : s.outputDir.parts ≠ []) (hw : w.disk.IsFileTree)
    (h : Does (run s) w b w') (hshort : ∀ l ∈ b.libraries, l.shortName.IsPlain) :
    ∀ l ∈ b.libraries, l.shortName ≠ s.rootLibrary → Shimmed s w'.disk l := by
  obtain ⟨x, v, v₁, v₂, hp⟩ := passes_of_run hs hw h
  obtain ⟨uber, cs, -, hassemble⟩ := hp.assembled
  intro l hl hroot
  obtain ⟨htext, hbeside⟩ := shimmed_of_assemble_all hs hout hshort hp.tree₁ hassemble l hl hroot
  have hindex : (s.shim l).parts ≠ s.outputDir.parts ++ [Emission.indexName] := fun he =>
    hbeside (he.symm ▸ List.prefix_append _ _)
  refine ⟨?_, hbeside⟩
  rwa [hp.index.frame hindex]

/-- A build takes no file away but those in the merged tree. -/
theorem keepsFile_of_run (hs : s.IsResolved) (hw : w.disk.IsFileTree) (h : Does (run s) w b w')
    (hshort : ∀ l ∈ b.libraries, l.shortName.IsPlain) {q : Place} (hq : ¬ s.outputDir.parts <+: q)
    (hfile : ∃ bytes, w.disk.entryAt? q = some (.file bytes)) :
    ∃ bytes, w'.disk.entryAt? q = some (.file bytes) := by
  obtain ⟨x, v, v₁, v₂, hp⟩ := passes_of_run hs hw h
  obtain ⟨uber, cs, -, hassemble⟩ := hp.assembled
  obtain ⟨bytes, hbytes⟩ := hfile
  obtain ⟨bytes₁, hbytes₁⟩ := hp.grows.file hbytes
  have hcleared := hp.cleared q
  rw [if_neg fun hin => hq hin.1, hbytes₁] at hcleared
  obtain ⟨hgrows, -, -⟩ := (within_assemble_all hs b.libraries uber hshort).does hp.tree₁ hassemble
  exact hp.index.keepsFile (hgrows.file hcleared)

/-! ## Histories -/

/-- A place where a build has written a shim. -/
def IsShim (s : Settings) (bs : List Built) (q : Place) : Prop :=
  ∃ b ∈ bs, ∃ l ∈ b.libraries, l.shortName ≠ s.rootLibrary ∧ q = (s.shim l).parts

/-- What builds with the same settings lead to, the last one first.  Between two of them anything
may be edited but the shims that they have written. -/
inductive Builds (s : Settings) : List Built → World → Prop where
  | start {w : World} (hw : w.disk.IsFileTree) : Builds s [] w
  | edit {bs : List Built} {w w' : World} (h : Builds s bs w) (hw' : w'.disk.IsFileTree)
    (hshims : ∀ q, IsShim s bs q → w'.disk.entryAt? q = w.disk.entryAt? q) : Builds s bs w'
  | build {bs : List Built} {w w' : World} {b : Built} (h : Builds s bs w)
    (hrun : Does (run s) w b w') (hshort : ∀ l ∈ b.libraries, l.shortName.IsPlain) :
    Builds s (b :: bs) w'

namespace Builds

variable {bs : List Built}

theorem isFileTree (hs : s.IsResolved) (h : Builds s bs w) : w.disk.IsFileTree := by
  induction h with
  | start hw => exact hw
  | edit _ hw' _ _ => exact hw'
  | build _ hrun hshort ih => exact isFileTree_of_run hs ih hrun hshort

/-- The shims of all builds are files, beside the merged tree. -/
theorem files (hs : s.IsResolved) (hout : s.outputDir.parts ≠ []) (h : Builds s bs w) :
    ∀ q, IsShim s bs q → ¬ s.outputDir.parts <+: q ∧
    ∃ bytes, w.disk.entryAt? q = some (.file bytes) := by
  induction h with
  | start hw => exact fun q ⟨b, hb, _⟩ => absurd hb List.not_mem_nil
  | edit _ _ hshims ih => exact fun q hq => by rw [hshims q hq]; exact ih q hq
  | build hbuilds hrun hshort ih =>
    rintro q ⟨b', hb', l, hl, hroot, hplace⟩
    have hw := hbuilds.isFileTree hs
    rcases List.mem_cons.mp hb' with rfl | hb'
    · obtain ⟨⟨bytes, -, hfile⟩, hbeside⟩ := shimmed_of_run hs hout hw hrun hshort l hl hroot
      exact hplace ▸ ⟨hbeside, bytes, hfile⟩
    · obtain ⟨hbeside, hfile⟩ := ih q ⟨b', hb', l, hl, hroot, hplace⟩
      exact ⟨hbeside, keepsFile_of_run hs hw hrun hshort hbeside hfile⟩

/-- The shims of the last build are as it has written them. -/
theorem last (hs : s.IsResolved) (hout : s.outputDir.parts ≠ []) {b : Built}
    (h : Builds s (b :: bs) w) :
    ∀ l ∈ b.libraries, l.shortName ≠ s.rootLibrary → Shimmed s w.disk l := by
  generalize hbs : b :: bs = history at h
  induction h with
  | start hw => cases hbs
  | edit _ _ hshims ih =>
    intro l hl hroot
    obtain ⟨htext, hbeside⟩ := ih hbs l hl hroot
    refine ⟨?_, hbeside⟩
    rwa [hshims _ ⟨b, hbs ▸ List.mem_cons_self, l, hl, hroot, rfl⟩]
  | build hbuilds hrun hshort _ =>
    cases hbs
    exact shimmed_of_run hs hout (hbuilds.isFileTree hs) hrun hshort

/-- **No shim is taken away**: whatever libraries have come and gone, the shims of all the libraries
of all builds still stand as files beside the merged tree; those of the last build have their
text. -/
theorem shims_remain (hs : s.IsResolved) (hout : s.outputDir.parts ≠ []) (h : Builds s bs w) :
    (∀ q, IsShim s bs q → ¬ s.outputDir.parts <+: q ∧
      ∃ bytes, w.disk.entryAt? q = some (.file bytes)) ∧
    ∀ b bs', bs = b :: bs' → ∀ l ∈ b.libraries, l.shortName ≠ s.rootLibrary →
      ∃ bytes, Utf8.encode? (Glue.shim {} s.outputDir l) = some bytes ∧
        w.disk.entryAt? (s.shim l).parts = some (.file bytes) := by
  refine ⟨h.files hs hout, ?_⟩
  rintro b bs' rfl l hl hroot
  exact (h.last hs hout l hl hroot).text

end Builds

namespace Sample

/-! A library is removed after a build, and a second build is made without it. -/

/-- What the first build has left, without the library and the source that imports from it. -/
def pruned : Disk :=
  (((disk 10).dropTree ["p", "a"]).dropTree ["p", "core", "y.ts"]).put ["u", "package.json"]
    (document (uber ["@s/core"]))

/-- What stands when the merged tree has been cleared, and when the root library has been copied. -/
def prunedDisk (n : Nat) : Disk where
  entries := (pruned.dropTree ["u", "lib"]).entries ++
    ([(["u", "lib"], .dir), (["u", "lib", "core"], .dir),
      (["u", "lib", "core", "index.ts"], textFile (Glue.entryPoint {} core)),
      (["u", "lib", "index.ts"], textFile (Glue.index {} "core" [core]))] :
        List (Place × Entry)).take n
  cwd := []
  tag := "t"

theorem isFileTree_pruned : pruned.IsFileTree where
  distinct := by decide
  tree := Disk.isTree_of_entries (by decide)
  tag := by decide

theorem pruned_finds : Discovery.Finds pruned ⟨.slash, ["p"]⟩ "@s/" ⟨[core], []⟩ :=
  finds_one (readable_fields "@s/core") (by decide) rfl rfl rfl rfl rfl rfl rfl

theorem pruned_runs :
    Gives (run (settings ["u", "lib"])) pruned ⟨[core], ⟨.slash, ["u", "lib"]⟩, ⟨0, 0, 1⟩⟩
    (prunedDisk 4) := by
  have hverify : Gives (verify (settings ["u", "lib"])) pruned
      ⟨[core], uber ["@s/core"], ⟨[], {}, {}⟩⟩ pruned :=
    gives_verify_uber (List.nodup_singleton _) (by decide) pruned_finds rfl rfl rfl
  have huber : targetsOf (uber ["@s/core"]) = .ok none := rfl
  have hclear : Gives (clear (settings ["u", "lib"]).outputDir) pruned () (prunedDisk 0) :=
    gives_clear_tree rfl rfl
  have hcore :
      Gives (assemble (settings ["u", "lib"]) (rules (settings ["u", "lib"]) [core]) none core)
        (prunedDisk 0) ⟨0, 0, 1⟩ (prunedDisk 3) := by
    have hcopy : Gives (Assembly.copyTree (rules (settings ["u", "lib"]) [core]) core.root
      ⟨.slash, ["u", "lib", "core"]⟩) (prunedDisk 0) ⟨0, 0, 1⟩ (prunedDisk 2) :=
        gives_bare rfl (list_bare rfl)
    have hentry :
        Gives (Emission.entryPoint ⟨.slash, ["u", "lib"]⟩ core) (prunedDisk 2) _ (prunedDisk 3) :=
      gives_put (by decide) rfl
    exact gives_assemble_root rfl hcopy hentry
  have hindex :
      Gives (Emission.index (settings ["u", "lib"]).outputDir [core] "core") (prunedDisk 3) _
        (prunedDisk 4) := gives_put (by decide) rfl
  exact gives_run hverify (gives_prepare huber hclear (hcore.mapM_cons gives_mapM_nil) hindex)

/-- The first build, with the library, and the second, without it. -/
def first : Built := ⟨[a, core], ⟨.slash, ["u", "lib"]⟩, ⟨1, 1, 3⟩⟩

def second : Built := ⟨[core], ⟨.slash, ["u", "lib"]⟩, ⟨0, 0, 1⟩⟩

theorem pruned_builds : ∃ j, Builds (settings ["u", "lib"]) [second, first] ⟨prunedDisk 4, j⟩ := by
  obtain ⟨j, hfirst⟩ := runs []
  obtain ⟨j', hsecond⟩ := pruned_runs []
  have hbuilt : Builds (settings ["u", "lib"]) [first] ⟨disk 10, j⟩ :=
    .build (.start isFileTree_disk) hfirst (by decide)
  have hedited : Builds (settings ["u", "lib"]) [first] ⟨pruned, []⟩ := by
    refine hbuilt.edit isFileTree_pruned ?_
    rintro q ⟨b, hb, l, hl, hroot, rfl⟩
    rw [List.mem_singleton.mp hb] at hl
    rcases List.mem_pair.mp hl with rfl | rfl
    · rfl
    · exact absurd rfl hroot
  exact ⟨j', hedited.build hsecond (by decide)⟩

end Sample

theorem Builds.shims_remain_sample :
    (Sample.settings ["u", "lib"]).IsResolved ∧ (["u", "lib"] : Place) ≠ [] ∧
    ∃ bs w, Builds (Sample.settings ["u", "lib"]) bs w ∧
      (∀ q, IsShim (Sample.settings ["u", "lib"]) bs q → ¬ (["u", "lib"] : Place) <+: q ∧
        ∃ bytes, w.disk.entryAt? q = some (.file bytes)) ∧
      ∀ b bs', bs = b :: bs' → ∀ l ∈ b.libraries, l.shortName ≠ "core" →
        ∃ bytes, Utf8.encode? (Glue.shim {} ⟨.slash, ["u", "lib"]⟩ l) = some bytes ∧
          w.disk.entryAt? ((Sample.settings ["u", "lib"]).shim l).parts = some (.file bytes) := by
  obtain ⟨j, h⟩ := Sample.pruned_builds
  have hs : (Sample.settings ["u", "lib"]).IsResolved := Sample.isResolved_settings (by decide)
  have hout : (Sample.settings ["u", "lib"]).outputDir.parts ≠ [] := List.cons_ne_nil _ _
  exact ⟨hs, hout, _, _, h, h.shims_remain hs hout⟩

/-- A shim is stale: the last build has no library for it, and it still stands. -/
theorem builds_stale :
    ∃ (s : Settings) (b b' : Built) (w : World), s.IsResolved ∧ s.outputDir.parts ≠ [] ∧
    Builds s [b', b] w ∧ ∃ q bytes, IsShim s [b] q ∧ ¬ IsShim s [b'] q ∧
      w.disk.entryAt? q = some (.file bytes) := by
  obtain ⟨j, h⟩ := Sample.pruned_builds
  refine ⟨Sample.settings ["u", "lib"], Sample.first, Sample.second, _,
    Sample.isResolved_settings (by decide),
    List.cons_ne_nil _ _, h, ["u", "a.ts"], _,
    ⟨_, List.mem_singleton_self _, Sample.a, List.mem_cons_self, by decide, rfl⟩, ?_, rfl⟩
  rintro ⟨b, hb, l, hl, hroot, -⟩
  rw [List.mem_singleton.mp hb] at hl
  rw [List.mem_singleton.mp hl] at hroot
  exact hroot rfl

end Build

end UberPackage
