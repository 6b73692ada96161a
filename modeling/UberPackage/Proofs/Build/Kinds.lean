/-
  What a library has at its turn.

  A build comes to a library when it has verified, cleared the merged tree and assembled the
  libraries before (`Build.ComesTo`).  By then it has changed the merged tree, the shims and the
  workspace.  So the directory of a library that is apart from the merged tree has files and
  directories at the same places as when the build started (`Build.ComesTo.sameKinds`): what has
  been changed is elsewhere, or a document that was there before.
-/
import UberPackage.Proofs.Build.Apart

namespace UberPackage

/-! ## The same kinds of entries -/

namespace Disk

/-- At a place and below, the disks have files and directories at the same places. -/
def SameKinds (d e : Disk) (top : Place) : Prop :=
  ∀ y, (e.entryAt? (top ++ y)).map Entry.isFile = (d.entryAt? (top ++ y)).map Entry.isFile

namespace SameKinds

variable {d e f : Disk} {top y : Place}

theorem trans (h : SameKinds d e top) (h' : SameKinds e f top) : SameKinds d f top :=
  fun y => (h' y).trans (h y)

theorem symm (h : SameKinds d e top) : SameKinds e d top := fun y => (h y).symm

theorem of_same (h : ∀ y, e.entryAt? (top ++ y) = d.entryAt? (top ++ y)) : SameKinds d e top :=
  fun y => congrArg _ (h y)

/-- A disk that grows has the same kinds where nothing is new. -/
theorem of_grows {inside above : Place → Prop} (h : Grows inside above d e)
    (hold : ∀ y, inside (top ++ y) ∨ above (top ++ y) → (d.entryAt? (top ++ y)).isSome = true) :
    SameKinds d e top := by
  intro y
  have hkept : (d.entryAt? (top ++ y)).isSome = true →
      (e.entryAt? (top ++ y)).map Entry.isFile = (d.entryAt? (top ++ y)).map Entry.isFile := by
    intro hsome
    obtain ⟨x, hx⟩ := Option.isSome_iff_exists.mp hsome
    obtain ⟨x', hx', hk⟩ := h.kinds _ x hx
    rw [hx, hx', Option.map_some, Option.map_some, hk]
  rcases h.entries (top ++ y) with he | hin | ⟨ha, -, -⟩
  · rw [he]
  · exact hkept (hold y (Or.inl hin))
  · exact hkept (hold y (Or.inr ha))

theorem isSome (h : SameKinds d e top) (y : Place) :
    (e.entryAt? (top ++ y)).isSome = (d.entryAt? (top ++ y)).isSome := by
  rw [← Option.isSome_map, h y, Option.isSome_map]

theorem dir (h : SameKinds d e top) (hd : d.entryAt? (top ++ y) = some .dir) :
    e.entryAt? (top ++ y) = some .dir := by
  have hy := h y
  rw [hd, Option.map_some] at hy
  obtain ⟨x, hx, hk⟩ := Option.map_eq_some_iff.mp hy
  cases x with
  | dir => exact hx
  | file bytes => cases hk

theorem file (h : SameKinds d e top) {bytes : Bytes}
    (hd : d.entryAt? (top ++ y) = some (.file bytes)) :
    ∃ bytes', e.entryAt? (top ++ y) = some (.file bytes') := by
  have hy := h y
  rw [hd, Option.map_some] at hy
  obtain ⟨x, hx, hk⟩ := Option.map_eq_some_iff.mp hy
  cases x with
  | dir => cases hk
  | file bytes' => exact ⟨bytes', hx⟩

end SameKinds

end Disk

namespace Build

open Act Disk

variable {s : Settings} {w w' u : World} {b : Built} {l : Library} {libraries : List Library}

/-- A library that has been found lies in a directory with an ordinary path. -/
theorem library_of_verify (hs : s.IsResolved) (hw : w.disk.IsFileTree) {x : Verified} {v : World}
    (h : Does (verify s) w x v) (hl : l ∈ x.libraries) :
    l.root.IsResolved ∧ w.disk.entryAt? l.root.parts = some .dir := by
  obtain ⟨found, workspace, hfinds, hlibraries, -⟩ := verify_does hs h
  obtain ⟨n, hn, hroot, hdir, -⟩ := hfinds.mem hw hs.librariesRoot (hlibraries ▸ hl)
  refine ⟨?_, hdir⟩
  rw [hroot]
  exact hs.librariesRoot.down_fileName hn

/-- A library that is built lies in a directory with an ordinary path. -/
theorem library_does (hs : s.IsResolved) (hw : w.disk.IsFileTree) (h : Does (run s) w b w')
    (hl : l ∈ b.libraries) : l.root.IsResolved ∧ w.disk.entryAt? l.root.parts = some .dir := by
  obtain ⟨x, v, counts, hverify, -, rfl⟩ := run_does h
  exact library_of_verify hs hw hverify hl

/-- No place of an unrelated directory is new when other libraries are assembled. -/
theorem old_of_footprint {ls : List Library} (hshort : ∀ k ∈ ls, k.shortName.IsPlain) {top : Place}
    (hapart : Place.Unrelated s.outputDir.parts top) {d : Disk}
    (hdir : d.entryAt? top = some .dir) (y : Place)
    (h : (∃ k ∈ ls, s.Footprint k (top ++ y)) ∨ top ++ y <+: s.outputDir.parts) :
    (d.entryAt? (top ++ y)).isSome = true := by
  rcases h with ⟨k, hk, hin⟩ | habove
  · rcases hin.inside (hshort k hk) with hin | hshim
    · exact absurd hin (hapart.below y).1
    · -- a shim stands beside the merged tree, so at most it has the place of the directory itself
      rw [Settings.parts_shim (hshort k hk)] at hshim
      rcases List.prefix_concat_iff.mp (hshim ▸ List.prefix_append top y) with he | hp
      · rw [he] at hdir
        rw [hshim, hdir]
        rfl
      · exact absurd (hp.trans (List.dropLast_prefix _)) hapart.2
  · exact absurd habove (hapart.below y).2

/-! ## The turn of a library -/

/-- The build comes to a library: it has found the libraries, cleared the merged tree and assembled
the libraries before. -/
def ComesTo (s : Settings) (w : World) (libraries : List Library) (l : Library)
    (u : World) : Prop :=
  ∃ x v v₀ v₁ v₂ uber before after cs, Does (verify s) w x v ∧ x.libraries = libraries ∧
    targetsOf x.manifest = .ok uber ∧ v₀.disk = v.disk ∧ Does (clear s.outputDir) v₀ () v₁ ∧
    libraries = before ++ l :: after ∧
    Does (before.mapM (assemble s (rules s libraries) uber)) v₁ cs v₂ ∧
    u.disk = v₂.disk

/-- A build that succeeds comes to each of its libraries, assembles it and those after it, and
writes the index. -/
theorem comesTo_of_run (h : Does (run s) w b w') (hl : l ∈ b.libraries) :
    ∃ uber u c u', ∃ after : List Library, ∃ cs v₂ v₃, ComesTo s w b.libraries l u ∧
      Does (assemble s (rules s b.libraries) uber l) u c u' ∧ (∀ k ∈ after, k ∈ b.libraries) ∧
      Does (after.mapM (assemble s (rules s b.libraries) uber)) u' cs v₂ ∧
      Does (Emission.index s.outputDir b.libraries s.rootLibrary) v₂
        (s.outputDir / Emission.indexName) v₃ ∧
      v₃.disk = w'.disk := by
  obtain ⟨x, v, counts, hverify, hprepare, rfl⟩ := run_does h
  obtain ⟨uber, v₀, v₁, v₂, v₃, cs, huber, hv₀, hclear, hassemble, hindex, hv₃, -⟩ :=
    prepare_does hprepare
  dsimp only at hl ⊢
  obtain ⟨before, after, hsplit⟩ := List.append_of_mem hl
  have hassemble' :
      Does ((before ++ l :: after).mapM (assemble s (rules s x.libraries) uber)) v₁ cs v₂ := by
    rw [← hsplit]
    exact hassemble
  obtain ⟨cs₁, u, c, u', cs₂, hbefore, hturn, hafter⟩ := does_mapM_split hassemble'
  have hcomes : ComesTo s w x.libraries l u :=
    ⟨x, v, v₀, v₁, u, uber, before, after, cs₁, hverify, rfl, huber, hv₀, hclear,
      hsplit, hbefore, rfl⟩
  have hrest : ∀ k ∈ after, k ∈ x.libraries := fun k hk => by
    rw [hsplit]
    exact List.mem_append_right _ (List.mem_cons_of_mem _ hk)
  exact ⟨uber, u, c, u', after, cs₂, v₂, v₃, hcomes, hturn, hrest, hafter, hindex, hv₃⟩

namespace ComesTo

theorem mem (h : ComesTo s w libraries l u) : l ∈ libraries := by
  obtain ⟨-, -, -, -, -, -, before, after, -, -, -, -, -, -, hsplit, -, -⟩ := h
  rw [hsplit]
  exact List.mem_append_right _ List.mem_cons_self

theorem library (hs : s.IsResolved) (hw : w.disk.IsFileTree) (h : ComesTo s w libraries l u) :
    l.root.IsResolved ∧ w.disk.entryAt? l.root.parts = some .dir := by
  have hl := h.mem
  obtain ⟨x, v, -, -, -, -, -, -, -, hverify, rfl, -⟩ := h
  exact library_of_verify hs hw hverify hl

/-- **Up to its turn a library keeps its kinds of entries**, when it is apart from the merged
tree. -/
theorem sameKinds (hs : s.IsResolved) (hw : w.disk.IsFileTree) (h : ComesTo s w libraries l u)
    (hshort : ∀ k ∈ libraries, k.shortName.IsPlain) : u.disk.IsFileTree ∧
      (Place.Unrelated s.outputDir.parts l.root.parts → SameKinds w.disk u.disk l.root.parts) := by
  have hdir := (h.library hs hw).2
  obtain ⟨x, v, v₀, v₁, v₂, uber, before, after, cs, hverify, rfl, -, hv₀, hclear, hsplit,
    hbefore, hu⟩ := h
  obtain ⟨found, workspace, -, -, ⟨_, _, hmanifest, -⟩, ⟨_, _, hworkspace, -⟩, -⟩ :=
    verify_does hs hverify
  obtain ⟨hcorrected, hv, -⟩ := (@within_verify _ hs
    (fun q => q = s.workspacePath.parts ∨ q = s.manifestPath.parts) (fun _ => False)
    (Or.inl rfl) (Or.inr rfl)).does hw hverify
  rw [← hv₀] at hv hcorrected
  obtain ⟨-, hv₁, -⟩ := (@within_clear _ hs.outputDir (fun _ => True) (fun _ => True)
    fun _ _ => trivial).does hv hclear
  have hplain : ∀ k ∈ before, k.shortName.IsPlain :=
    fun k hk => hshort k (hsplit ▸ List.mem_append_left _ hk)
  obtain ⟨hassembled, hv₂, -⟩ := (within_assemble_all hs x.libraries uber hplain).does hv₁ hbefore
  rw [hu]
  refine ⟨hv₂, fun hapart => ?_⟩
  -- the documents were there before
  have hverified : SameKinds w.disk v₀.disk l.root.parts := .of_grows hcorrected fun y hy => by
    rcases hy with (hy | hy) | hy
    · rw [hy, read_resolved hs.workspacePath hworkspace]
      rfl
    · rw [hy, read_resolved hs.manifestPath hmanifest]
      rfl
    · exact hy.elim
  have hcleared : SameKinds v₀.disk v₁.disk l.root.parts := .of_same fun y => by
    rw [clear_does hs.outputDir hv hclear, if_neg fun hin => (hapart.below y).1 hin.1]
  have hdir₁ : v₁.disk.entryAt? l.root.parts = some .dir := by
    have hdir' := (hverified.trans hcleared).dir (y := []) (by rw [List.append_nil, hdir])
    rwa [List.append_nil] at hdir'
  exact (hverified.trans hcleared).trans
    (.of_grows hassembled (old_of_footprint hplain hapart hdir₁))

end ComesTo

end Build

end UberPackage
