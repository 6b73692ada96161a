/-
  What a build makes of its libraries.

  When the merged tree, the documents, the libraries and the shims are not inside one another
  (`Settings.Separated`), each library is copied as it stood before the build and keeps its
  directory to itself (`Build.turn_of_run`).  So the libraries, the manifest and the settings tell
  what the merged tree has in the end at each place (`Settings.image?`, `Build.image_of_run`),
  whatever stood there before.
-/
import UberPackage.Proofs.Assembly.Copy
import UberPackage.Proofs.Build.History
import UberPackage.Proofs.Build.Module

namespace UberPackage

/-! ## Images -/

/-- A text as a file. -/
def Entry.ofText? (t : Text) : Option Entry := (Utf8.encode? t).map Entry.file

namespace Disk

theorem Puts.ofText? {d d' : Disk} {place : Place} {t : Text} (h : Puts d d' place t) :
    d'.entryAt? place = Entry.ofText? t := by
  obtain ⟨bytes, hbytes, hfile⟩ := h.file
  rw [hfile, Entry.ofText?, hbytes]
  rfl

end Disk

namespace Assembly.Mirror

variable {m : Mirror} {e : Disk}

/-- The mirror of the same source on another disk. -/
def onDisk (m : Mirror) (e : Disk) : Mirror := { m with disk := e }

theorem top_onDisk (hs : m.source.IsResolved) : (m.onDisk e).top = m.top := by
  rw [top, top, Disk.placeOf_resolved hs]
  exact Disk.placeOf_resolved hs

section Congruence

variable (hs : m.source.IsResolved)
  (h : ∀ y, e.entryAt? (m.source.parts ++ y) = m.disk.entryAt? (m.source.parts ++ y))

include hs h

theorem original?_congr (y : Place) : (m.onDisk e).original? y = m.original? y := by
  rw [original?, original?, top_onDisk hs, top, Disk.placeOf_resolved hs]
  exact h y

theorem keeps_congr (y : Place) : (m.onDisk e).keeps y = m.keeps y := by
  rw [keeps, keeps, top_onDisk hs, top, Disk.placeOf_resolved hs]
  exact Rules.keeps_congr _ (fun z => congrArg Option.isSome (h z)) y

/-- The image is told by what the source has. -/
theorem image?_congr (y : Place) : (m.onDisk e).image? y = m.image? y := by
  rw [image?, image?, keeps_congr hs h, original?_congr hs h]
  rfl

theorem defined_congr {y : Place} (hd : (m.onDisk e).Defined y) : m.Defined y := by
  rwa [Defined, image?_congr hs h, keeps_congr hs h, original?_congr hs h] at hd

end Congruence

/-- A source that has been copied into a directory in which nothing stood. -/
theorem Separate.image (h : m.Separate) (htop : m.original? [] = some .dir)
    (hempty : ∀ q, m.target.parts <+: q → m.disk.entryAt? q = none) {w w' : World}
    (hw : w.disk = m.disk) {c : Counts}
    (hcopy : Act.Does (copyTree m.rules m.source m.target) w c w') (y : Place) :
    w'.disk.entryAt? (m.target.parts ++ y) = m.image? y ∧ m.Defined y := by
  have hruns := runs_of_copyTree hcopy
  -- the path of the source is not too long, as the source has been listed
  have hname : m.source.nameFault? = none := by
    obtain ⟨_, v, _, hmake, hrest, -⟩ := hruns.of_singleton
    obtain ⟨-, rfl⟩ := Task.make_does hmake
    obtain ⟨_, _, _, hlist, -, -⟩ := hrest.of_singleton
    obtain ⟨-, names, hlist, -⟩ := Task.list_does hlist
    exact (Disk.locate_eq_ok.mp (Disk.list_eq_ok hlist).1).1
  rw [original?, List.append_nil, h.top_eq] at htop
  have hstarts : m.Starts := by
    refine .of_noDots h.tree.distinct (h.tree.stat h.source hname htop) (h.tree.isTree _)
      (fun y _ => ?_) h.target.ne_dots ?_ ?_
    · rw [h.goal_eq]
      exact hempty _ (List.prefix_append _ _)
    · rw [h.goal_eq, h.top_eq]
      exact h.apart.2
    · rw [h.goal_eq, h.top_eq]
      exact h.apart.1
  rw [← h.goal_eq]
  exact image_of_runs hstarts hw hruns y

end Assembly.Mirror

namespace Settings

/-! ## Places apart -/

/-- The places of a build: the merged tree, the documents, the libraries and the shims. -/
def places (s : Settings) (libraries : List Library) : List Place :=
  [s.outputDir.parts, s.manifestPath.parts, s.workspacePath.parts] ++
    (libraries.map (·.root.parts) ++
      (libraries.filter fun l => l.shortName ≠ s.rootLibrary).map fun l => (s.shim l).parts)

/-- No place of a build is inside another. -/
structure Separated (s : Settings) (libraries : List Library) : Prop where
  output_manifest : Place.Unrelated s.outputDir.parts s.manifestPath.parts
  output_workspace : Place.Unrelated s.outputDir.parts s.workspacePath.parts
  documents : Place.Unrelated s.manifestPath.parts s.workspacePath.parts
  output : ∀ l ∈ libraries, Place.Unrelated s.outputDir.parts l.root.parts
  manifest : ∀ l ∈ libraries, Place.Unrelated s.manifestPath.parts l.root.parts
  workspace : ∀ l ∈ libraries, Place.Unrelated s.workspacePath.parts l.root.parts
  shim : ∀ l ∈ libraries, l.shortName ≠ s.rootLibrary →
    Place.Unrelated s.outputDir.parts (s.shim l).parts ∧
    Place.Unrelated s.manifestPath.parts (s.shim l).parts ∧
    Place.Unrelated s.workspacePath.parts (s.shim l).parts ∧
    ∀ k ∈ libraries, Place.Unrelated k.root.parts (s.shim l).parts

variable {s : Settings} {libraries : List Library}

theorem separated_of_places (h : (s.places libraries).Pairwise Place.Unrelated) :
    s.Separated libraries := by
  rw [places, List.pairwise_append, List.pairwise_append] at h
  obtain ⟨hfirst, ⟨-, -, hlast⟩, hcross⟩ := h
  have hlibrary :
      ∀ p ∈ [s.outputDir.parts, s.manifestPath.parts, s.workspacePath.parts], ∀ l ∈ libraries,
      Place.Unrelated p l.root.parts := fun p hp l hl =>
    hcross p hp _ (List.mem_append_left _ (List.mem_map_of_mem hl))
  have hmem : ∀ l ∈ libraries, l.shortName ≠ s.rootLibrary →
      (s.shim l).parts ∈ (libraries.filter fun l => l.shortName ≠ s.rootLibrary).map fun l =>
        (s.shim l).parts :=
    fun l hl hroot => List.mem_map_of_mem (List.mem_filter.mpr ⟨hl, decide_eq_true hroot⟩)
  have hshim :
      ∀ p ∈ [s.outputDir.parts, s.manifestPath.parts, s.workspacePath.parts], ∀ l ∈ libraries,
      l.shortName ≠ s.rootLibrary → Place.Unrelated p (s.shim l).parts := fun p hp l hl hroot =>
    hcross p hp _ (List.mem_append_right _ (hmem l hl hroot))
  simp only [List.pairwise_cons, List.mem_cons, List.not_mem_nil, or_false, forall_eq_or_imp,
    forall_eq] at hfirst
  exact {
    output_manifest := hfirst.1.1
    output_workspace := hfirst.1.2
    documents := hfirst.2.1
    output := hlibrary _ (by simp)
    manifest := hlibrary _ (by simp)
    workspace := hlibrary _ (by simp)
    shim := fun l hl hroot => ⟨hshim _ (by simp) l hl hroot, hshim _ (by simp) l hl hroot,
      hshim _ (by simp) l hl hroot, fun k hk =>
        hlast _ (List.mem_map_of_mem hk) _ (hmem l hl hroot)⟩ }

theorem Separated.output_ne_nil (h : s.Separated libraries) : s.outputDir.parts ≠ [] :=
  fun he => h.output_manifest.1 (he ▸ List.nil_prefix)

/-- No place in the directory of a library belongs to another library. -/
theorem Separated.not_footprint (h : s.Separated libraries) {l k : Library}
    (hl : l.shortName.IsComponent) (hk : k.shortName.IsComponent) (hmem : k ∈ libraries)
    (hne : l.shortName ≠ k.shortName) {q : Place} (hq : (s.directory l).parts <+: q) :
    ¬ s.Footprint k q := by
  rintro (hin | ⟨hroot, rfl⟩)
  · have hlength : (s.directory l).parts.length = (s.directory k).parts.length := by
      rw [length_directory hl, length_directory hk]
    have hboth := (List.prefix_of_prefix_length_le hq hin hlength.le).eq_of_length hlength
    rw [parts_directory hl.isPlain, parts_directory hk.isPlain, Path.partsOf_component hl,
      Path.partsOf_component hk] at hboth
    exact hne (List.cons.inj (List.append_cancel_left hboth)).1
  · rw [parts_directory hl.isPlain] at hq
    exact (h.shim k hmem hroot).1.1 ((List.prefix_append _ _).trans hq)

/-! ## The image of the libraries -/

/-- The text of the bindings of a library. -/
def bindingsText? (s : Settings) (uber : Option Json) (l : Library) : Option Text := do
  let own ← l.manifest.targets.toOption
  let nested ← (Binding.submodule uber own s.modulePrefix).toOption
  return (Emission.bindingsFile (nested.map Binding.toObject)).write

/-- How a library on a disk is mirrored. -/
def mirror (s : Settings) (libraries : List Library) (d : Disk) (l : Library) : Assembly.Mirror :=
  ⟨Build.rules s libraries, d, l.root, s.directory l⟩

/-- What the directory of a library in the merged tree has at a place in it: the entry point, the
bindings unless it is the root library, and all else as the mirror has it. -/
def directoryImage? (s : Settings) (libraries : List Library) (uber : Option Json)
    (d : Disk) (l : Library) (z : Place) : Option Entry :=
  if z = [Emission.indexName] then Entry.ofText? (Glue.entryPoint {} l)
  else if z = [Emission.bindingsName] ∧ l.shortName ≠ s.rootLibrary then
    (s.bindingsText? uber l).bind Entry.ofText?
  else (s.mirror libraries d l).image? z

/-- What the merged tree has at a place in it: the index, and the directories of the libraries under
their short names. -/
def image? (s : Settings) (libraries : List Library) (uber : Option Json) (d : Disk) :
    Place → Option Entry
  | [] => some .dir
  | short :: z =>
    if short :: z = [Emission.indexName] then Entry.ofText? (Glue.index {} s.rootLibrary libraries)
    else (libraries.find? fun l => l.shortName = short).bind fun l =>
      s.directoryImage? libraries uber d l z

end Settings

namespace Build

open Act Disk

variable {s : Settings} {w w' : World} {b : Built}

/-- What assembling a library makes of its directory, when nothing stood there. -/
theorem directory_of_assemble (hs : s.IsResolved) {libraries : List Library} {uber : Option Json}
    {l : Library} (hl : l.shortName.IsPlain) (hroot : l.root.IsResolved) {u u' : World} {c : Counts}
    (hu : u.disk.IsFileTree) (hdir : u.disk.entryAt? l.root.parts = some .dir)
    (hapart : Place.Unrelated (s.directory l).parts l.root.parts)
    (hempty : ∀ q, (s.directory l).parts <+: q → u.disk.entryAt? q = none)
    (h : Does (assemble s (rules s libraries) uber l) u c u') (z : Place) :
    u'.disk.entryAt? ((s.directory l).parts ++ z) = s.directoryImage? libraries uber u.disk l z ∧
      (s.mirror libraries u.disk l).Defined z := by
  have hstand := standing_of_assemble hs hl hu h
  obtain ⟨v₀, v₁, d₂, hv₀, hcopy, hentry, hrest⟩ := assemble_does hs hl h
  have hseparate : (s.mirror libraries u.disk l).Separate :=
    ⟨hu, hroot, Settings.isResolved_directory hs hl, hapart⟩
  have htop : (s.mirror libraries u.disk l).original? [] = some .dir := by
    rw [Assembly.Mirror.original?, hseparate.top_eq, List.append_nil]
    exact hdir
  obtain ⟨himage, hdefined⟩ := hseparate.image htop hempty hv₀ hcopy z
  refine ⟨?_, hdefined⟩
  have hother : ∀ {n : Text}, z ≠ [n] → (s.directory l).parts ++ z ≠ (s.directory l).parts ++ [n] :=
    fun hne he => hne (List.append_cancel_left he)
  have hsecond : d₂.entryAt? ((s.directory l).parts ++ z) =
      if z = [Emission.indexName] then Entry.ofText? (Glue.entryPoint {} l)
      else (s.mirror libraries u.disk l).image? z := by
    split
    · next hz => rw [hz, hentry.ofText?]
    · next hz => rw [hentry.frame (hother hz)]; exact himage
  unfold Settings.directoryImage?
  split at hrest
  · next hrootl =>
    rw [hrest, hsecond]
    simp only [hrootl, ne_eq, not_true_eq_false, and_false, if_false]
  · next hrootl =>
    obtain ⟨own, nested, d₃, hown, hnested, hbindings, hputs⟩ := hrest
    have houtside : (s.directory l).parts ++ z ≠ (s.shim l).parts := fun he =>
      hstand.not_prefix_shim hl hl (fun hnil => hapart.1 (hnil ▸ List.nil_prefix)) hstand hrootl
        (he ▸ List.prefix_append _ _)
    have htext : s.bindingsText? uber l =
        some (Emission.bindingsFile (nested.map Binding.toObject)).write := by
      rw [Settings.bindingsText?, hown]
      show (do let nested ← (Binding.submodule uber own s.modulePrefix).toOption; _) = _
      rw [hnested]
      rfl
    rw [hputs.frame houtside, htext]
    by_cases hz : z = [Emission.bindingsName]
    · have hindex : z ≠ [Emission.indexName] := by
        rw [hz]
        decide
      rw [if_neg hindex, if_pos ⟨hz, hrootl⟩, hz, hbindings.ofText?]
      rfl
    · rw [hbindings.frame (hother hz), hsecond]
      simp only [hz, false_and, if_false]

/-- The turn of a library: its source is as it was before the build, nothing stands where it is
assembled, and what is assembled there stays. -/
structure Turn (s : Settings) (libraries : List Library) (uber : Option Json)
    (w w' : World) (l : Library) (u : World) (c : Counts) (u' : World) : Prop where
  assembled : Does (assemble s (rules s libraries) uber l) u c u'
  tree : u.disk.IsFileTree
  source : ∀ y, u.disk.entryAt? (l.root.parts ++ y) = w.disk.entryAt? (l.root.parts ++ y)
  empty : ∀ q, (s.directory l).parts <+: q → u.disk.entryAt? q = none
  stays : ∀ q, (s.directory l).parts <+: q → w'.disk.entryAt? q = u'.disk.entryAt? q

/-- The short names are ordinary, differ from one another and are not that of the index. -/
structure Named (libraries : List Library) : Prop where
  components : ∀ l ∈ libraries, l.shortName.IsComponent
  notIndex : ∀ l ∈ libraries, l.shortName ≠ Emission.indexName
  differ : libraries.Pairwise fun l k => l.shortName ≠ k.shortName

theorem Named.plain {libraries : List Library} (h : Named libraries) :
    ∀ l ∈ libraries, l.shortName.IsPlain := fun l hl => (h.components l hl).isPlain

/-- The libraries before and after one in a build leave its directory alone. -/
theorem Named.not_footprint {libraries as bs : List Library} {l k : Library}
    (hnamed : Named libraries) (hsep : s.Separated libraries) (hsplit : libraries = as ++ l :: bs)
    (hk : k ∈ as ∨ k ∈ bs) {q : Place} (hq : (s.directory l).parts <+: q) : ¬ s.Footprint k q := by
  subst hsplit
  have hl : l ∈ as ++ l :: bs := List.mem_append_right _ List.mem_cons_self
  have hmem : k ∈ as ++ l :: bs :=
    hk.elim (List.mem_append_left _) fun hk => List.mem_append_right _ (List.mem_cons_of_mem _ hk)
  obtain ⟨-, hlbs, hasl⟩ := List.pairwise_append.mp hnamed.differ
  have hne : l.shortName ≠ k.shortName := by
    rcases hk with hk | hk
    · exact (hasl k hk l List.mem_cons_self).symm
    · exact (List.pairwise_cons.mp hlbs).1 k hk
  exact hsep.not_footprint (hnamed.components l hl) (hnamed.components k hmem) hmem hne hq

/-- No library that is assembled changes what lies in another one. -/
theorem not_footprint_source {libraries : List Library} (hsep : s.Separated libraries)
    {k l : Library} (hk : k ∈ libraries) (hshort : k.shortName.IsPlain)
    (hl : l ∈ libraries) (y : Place) : ¬ s.Footprint k (l.root.parts ++ y) := by
  rintro (hin | ⟨hroot, he⟩)
  · rw [Settings.parts_directory hshort] at hin
    exact ((hsep.output l hl).below y).1 ((List.prefix_append _ _).trans hin)
  · exact ((hsep.shim k hk hroot).2.2.2 l hl).1 (he ▸ List.prefix_append l.root.parts y)

/-- Correcting the documents and clearing the merged tree leave the libraries as they are. -/
theorem Passes.source_cleared {x : Verified} {v v₁ v₂ : World} (hp : Passes s w b w' x v v₁ v₂)
    (hsep : s.Separated b.libraries) {l : Library} (hl : l ∈ b.libraries) (y : Place) :
    v₁.disk.entryAt? (l.root.parts ++ y) = w.disk.entryAt? (l.root.parts ++ y) := by
  rw [hp.cleared, if_neg fun hin => ((hsep.output l hl).below y).1 hin.1]
  rcases hp.grows.entries (l.root.parts ++ y) with he | (he | he) | ⟨hfalse, -⟩
  · exact he
  · exact absurd (he ▸ List.prefix_append l.root.parts y) (hsep.workspace l hl).2
  · exact absurd (he ▸ List.prefix_append l.root.parts y) (hsep.manifest l hl).2
  · exact hfalse.elim

/-- Nothing stands in the merged tree after it has been cleared. -/
theorem Passes.output_cleared {x : Verified} {v v₁ v₂ : World} (hp : Passes s w b w' x v v₁ v₂)
    (hsep : s.Separated b.libraries) {q : Place} (hq : s.outputDir.parts <+: q) :
    v₁.disk.entryAt? q = none := by
  rw [hp.cleared, if_pos ⟨hq, fun hnil => hsep.output_ne_nil (List.prefix_nil.mp (hnil ▸ hq))⟩]

/-- Each library has its turn. -/
theorem turn_of_run {x : Verified} {v v₁ v₂ : World} (hp : Passes s w b w' x v v₁ v₂)
    (hs : s.IsResolved) (hnamed : Named b.libraries) (hsep : s.Separated b.libraries)
    {uber : Option Json} {cs : List Counts}
    (hassemble : Does (b.libraries.mapM (assemble s (rules s b.libraries) uber)) v₁ cs v₂)
    {l : Library} (hl : l ∈ b.libraries) : ∃ u c u', Turn s b.libraries uber w w' l u c u' := by
  have hplain := hnamed.plain
  have hcomponent := hnamed.components l hl
  obtain ⟨as, bs, hsplit⟩ := List.append_of_mem hl
  rw [hsplit] at hassemble
  obtain ⟨u, c, u', hturn, hu, -, hbefore, hafter⟩ :=
    exists_turn hs (hsplit ▸ hplain) hp.tree₁ hassemble
  have has : ∀ k ∈ as, k ∈ b.libraries := fun k hk => hsplit ▸ List.mem_append_left _ hk
  refine ⟨u, c, u', ⟨hsplit ▸ hturn, hu, fun y => ?source, fun q hq => ?empty, fun q hq => ?stays⟩⟩
  case source =>
    rw [← hp.source_cleared hsep hl]
    rcases hbefore.entries (l.root.parts ++ y) with he | ⟨k, hk, hin⟩ | ⟨habove, -, -⟩
    · exact he
    · exact absurd hin (not_footprint_source hsep (has k hk) (hplain k (has k hk)) hl y)
    · exact absurd habove ((hsep.output l hl).below y).2
  case empty =>
    rcases hbefore.entries q with he | ⟨k, hk, hin⟩ | ⟨habove, -, -⟩
    · rw [Settings.parts_directory hcomponent.isPlain] at hq
      rw [he, hp.output_cleared hsep ((List.prefix_append _ _).trans hq)]
    · exact absurd hin (hnamed.not_footprint hsep hsplit (Or.inl hk) hq)
    · exact absurd habove (Settings.not_prefix_output hcomponent hq)
  case stays =>
    have hindex : q ≠ s.outputDir.parts ++ [Emission.indexName] := by
      rintro rfl
      rw [Settings.parts_directory hcomponent.isPlain, Path.partsOf_component hcomponent,
        List.prefix_append_right_inj] at hq
      exact hnamed.notIndex l hl (List.cons.inj (hq.eq_of_length rfl)).1
    rw [hp.index.frame hindex]
    rcases hafter.entries q with he | ⟨k, hk, hin⟩ | ⟨habove, -, -⟩
    · exact he
    · exact absurd hin (hnamed.not_footprint hsep hsplit (Or.inr hk) hq)
    · exact absurd habove (Settings.not_prefix_output hcomponent hq)

/-- What the directory of a library has in the end is told by what the library had before the
build. -/
theorem Turn.directory (hs : s.IsResolved) {libraries : List Library}
    {uber : Option Json} {l : Library} {u u' : World} {c : Counts}
    (ht : Turn s libraries uber w w' l u c u') (hl : l.shortName.IsPlain)
    (hroot : l.root.IsResolved) (hdir : w.disk.entryAt? l.root.parts = some .dir)
    (hapart : Place.Unrelated s.outputDir.parts l.root.parts) (z : Place) :
    w'.disk.entryAt? ((s.directory l).parts ++ z) = s.directoryImage? libraries uber w.disk l z ∧
      (s.mirror libraries w.disk l).Defined z := by
  have hdir' := ht.source []
  rw [List.append_nil, hdir] at hdir'
  obtain ⟨himage, hdefined⟩ := directory_of_assemble hs hl hroot ht.tree hdir'
    (Settings.unrelated_directory hl hapart) ht.empty ht.assembled z
  refine ⟨?_, Assembly.Mirror.defined_congr (m := s.mirror libraries w.disk l) hroot
    ht.source hdefined⟩
  rw [ht.stays _ (List.prefix_append _ _), himage, Settings.directoryImage?,
    Settings.directoryImage?]
  have hcongr := Assembly.Mirror.image?_congr (m := s.mirror libraries w.disk l) hroot ht.source z
  rw [← hcongr]
  rfl

/-- Under a name that no library has, assembling leaves nothing in the merged tree. -/
theorem output_of_other {x : Verified} {v v₁ v₂ : World} (hp : Passes s w b w' x v v₁ v₂)
    (hs : s.IsResolved) (hnamed : Named b.libraries) (hsep : s.Separated b.libraries)
    {uber : Option Json} {cs : List Counts}
    (hassemble : Does (b.libraries.mapM (assemble s (rules s b.libraries) uber)) v₁ cs v₂)
    {short : Text} (hnone : ∀ l ∈ b.libraries, l.shortName ≠ short) (z : Place) :
    v₂.disk.entryAt? (s.outputDir.parts ++ short :: z) = none := by
  obtain ⟨hgrows, -, -⟩ :=
    (within_assemble_all hs b.libraries uber hnamed.plain).does hp.tree₁ hassemble
  rcases hgrows.entries (s.outputDir.parts ++ short :: z) with he | ⟨k, hk, hin⟩ | ⟨habove, -, -⟩
  · rw [he, hp.output_cleared hsep (List.prefix_append _ _)]
  · exfalso
    rcases hin with hin | ⟨hroot, he⟩
    · rw [Settings.parts_directory (hnamed.plain k hk),
        Path.partsOf_component (hnamed.components k hk),
        List.prefix_append_right_inj] at hin
      exact hnone k hk (List.cons_prefix_cons.mp hin).1
    · exact (hsep.shim k hk hroot).1.1 (he ▸ List.prefix_append _ _)
  · have hlength := habove.length_le
    rw [List.length_append, List.length_cons] at hlength
    omega

/-- What the merged tree has in the end is told by the libraries, the manifest and the settings. -/
theorem image_of_run (hs : s.IsResolved) (hw : w.disk.IsFileTree) (h : Does (run s) w b w')
    (hnamed : Named b.libraries) (hsep : s.Separated b.libraries) :
    ∃ manifest uber, Holds w.disk s.manifestPath manifest ∧ targetsOf manifest = .ok uber ∧
      (∀ y, w'.disk.entryAt? (s.outputDir.parts ++ y) = s.image? b.libraries uber w.disk y) ∧
      ∀ l ∈ b.libraries, ∀ z, (s.mirror b.libraries w.disk l).Defined z := by
  obtain ⟨x, v, v₁, v₂, hp⟩ := passes_of_run hs hw h
  obtain ⟨found, workspace, -, -, hmanifest, -⟩ := verify_does hs hp.verified
  obtain ⟨uber, cs, huber, hassemble⟩ := hp.assembled
  have hdirectory : ∀ l ∈ b.libraries, ∀ z,
      w'.disk.entryAt? ((s.directory l).parts ++ z) =
        s.directoryImage? b.libraries uber w.disk l z ∧
        (s.mirror b.libraries w.disk l).Defined z := by
    intro l hl
    obtain ⟨u, c, u', ht⟩ := turn_of_run hp hs hnamed hsep hassemble hl
    obtain ⟨hroot, hdir⟩ := library_does hs hw h hl
    exact ht.directory hs (hnamed.plain l hl) hroot hdir (hsep.output l hl)
  refine ⟨x.manifest, uber, hmanifest, huber, fun y => ?_, fun l hl z => (hdirectory l hl z).2⟩
  obtain ⟨bytes, -, hindex⟩ := hp.index.file
  cases y with
  | nil =>
    have htree := isFileTree_of_run hs hw h hnamed.plain
    rw [List.append_nil]
    exact htree.parent (n := Emission.indexName) (by rw [hindex]; rfl)
  | cons short z =>
    rw [Settings.image?]
    split
    · next hi => rw [hi, hp.index.ofText?]
    · next hi =>
      cases hfind : b.libraries.find? fun l => l.shortName = short with
      | some l =>
        have hshort : l.shortName = short := by simpa using List.find?_some hfind
        have hl := List.mem_of_find?_eq_some hfind
        have himage := (hdirectory l hl z).1
        rw [Settings.parts_directory (hnamed.plain l hl),
          Path.partsOf_component (hnamed.components l hl), hshort,
          List.append_assoc] at himage
        exact himage
      | none =>
        have hnone : ∀ l ∈ b.libraries, l.shortName ≠ short := fun l hl he =>
          absurd (decide_eq_true he) (by simpa using List.find?_eq_none.mp hfind l hl)
        rw [hp.index.frame fun he => hi (List.append_cancel_left he),
          output_of_other hp hs hnamed hsep hassemble hnone z]
        rfl

end Build

end UberPackage
