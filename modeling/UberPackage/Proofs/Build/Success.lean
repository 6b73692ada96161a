/-
  When a build succeeds.

  A verification succeeds where there is something to find and the documents agree with it
  (`Build.gives_verify`).  Copying succeeds round by round (`Assembly.gives_rounds`), assembling a
  library when it is copied and its modules are written, and a build when its stages succeed one
  after the other (`Build.gives_run`).
-/
import UberPackage.Build
import UberPackage.Proofs.Assembly.Step
import UberPackage.Proofs.Discovery
import UberPackage.Proofs.Json.RoundTrip
import UberPackage.Proofs.Redirection.Ascii
import UberPackage.Proofs.Settings

namespace UberPackage

namespace Build

open Act Disk

variable {s : Settings} {d d' d'' : Disk}

/-- How the libraries of a build are copied. -/
def rules (s : Settings) (libraries : List Library) : Assembly.Rules :=
  ⟨{ libraries, root := s.outputDir }, s.strict, s.ignored⟩

/-- The bindings that the manifest of the uber-package has. -/
def targetsOf (manifest : Json) : Except Misfit (Option Json) :=
  do (← Manifest.ofJson manifest).targets

/-- Verifying documents that agree with the libraries changes nothing. -/
theorem gives_verify {found : Discovery.Found} {manifest workspace : Json} {p : Plan}
    (hfinds : Discovery.Finds d s.librariesRoot s.scope found)
    (hmanifest : Holds d s.manifestPath manifest) (hworkspace : Holds d s.workspacePath workspace)
    (hplan : (Plan.make found.libraries manifest workspace).2 = .ok p)
    (hw : p.workspace.changed = false) (hm : p.manifest.changed = false) :
    Gives (verify s) d ⟨found.libraries, manifest, p⟩ d := by
  have hplanned : Gives (plan found.libraries manifest workspace) d p d :=
    (gives_records _).bind (gives_orFail hplan)
  have hcorrect : Gives (correctWorkspace s workspace p.workspace) d () d := by
    rw [correctWorkspace, hw, if_neg Bool.false_ne_true]
    exact gives_pure
  have hcorrect' : Gives (correctManifest s manifest p.manifest) d () d := by
    rw [correctManifest, hm, if_neg Bool.false_ne_true]
    exact gives_pure
  unfold verify
  refine (Discovery.gives_run hfinds).bind ((gives_readDocument hmanifest).bind
    ((gives_readDocument hworkspace).bind (hplanned.bind (hcorrect.bind (hcorrect'.bind ?_)))))
  exact (gives_records _).bind gives_pure

/-- Assembling the root library copies it and writes its entry point. -/
theorem gives_assemble_root {rules : Assembly.Rules} {uber : Option Json} {l : Library} {c : Counts}
    {p : Path} (hroot : l.shortName = s.rootLibrary)
    (hcopy : Gives (Assembly.copyTree rules l.root (rules.layout.directory l)) d c d')
    (hentry : Gives (Emission.entryPoint s.outputDir l) d' p d'') :
    Gives (assemble s rules uber l) d c d'' := by
  unfold assemble
  refine (gives_records _).bind (hcopy.bind (hentry.bind ?_))
  rw [hroot, bne_self_eq_false, if_neg Bool.false_ne_true]
  exact gives_pure

/-- Assembling any other library also writes its bindings and its shim. -/
theorem gives_assemble_other {rules : Assembly.Rules} {uber own : Option Json}
    {l : Library} {c : Counts} {nested : Option (List Binding)} {p₁ p₂ p₃ : Path}
    {d₁ d₂ d₃ d₄ : Disk} (hroot : l.shortName ≠ s.rootLibrary)
    (hcopy : Gives (Assembly.copyTree rules l.root (rules.layout.directory l)) d c d₁)
    (hentry : Gives (Emission.entryPoint s.outputDir l) d₁ p₁ d₂)
    (hown : l.manifest.targets = .ok own)
    (hnested : Binding.submodule uber own s.modulePrefix = .ok nested)
    (hbindings : Gives (Emission.bindings s.outputDir l (nested.map Binding.toObject)) d₂ p₂ d₃)
    (hshim : Gives (Emission.shim s.outputDir l) d₃ p₃ d₄) :
    Gives (assemble s rules uber l) d c d₄ := by
  unfold assemble
  refine (gives_records _).bind (hcopy.bind (hentry.bind ?_))
  rw [if_pos (bne_iff_ne.mpr hroot)]
  refine Gives.bind ((gives_orFail hown).bind ((gives_orFail hnested).bind gives_pure)) ?_
  exact hbindings.bind (hshim.bind gives_pure)

/-- Where nothing stands, there is nothing to clear. -/
theorem gives_clear {root : Path} (h : d.exists? root = .ok false) : Gives (clear root) d () d := by
  refine (gives_ask h).bind ?_
  rw [if_neg Bool.false_ne_true]
  exact gives_pure

/-- A tree that stands is removed. -/
theorem gives_clear_tree {root : Path} (h : d.exists? root = .ok true)
    (h' : d.removeTree root = .ok d') : Gives (clear root) d () d' := by
  refine (gives_ask h).bind ?_
  rw [if_pos rfl]
  refine gives_change ?_
  show d.outcome (d.removeTree root) = _
  rw [h']
  rfl

/-- Preparing clears the merged tree, assembles the libraries and writes the index. -/
theorem gives_prepare {libraries : List Library} {manifest : Json} {uber : Option Json}
    {cs : List Counts} {p : Path} {d₁ d₂ d₃ : Disk} (huber : targetsOf manifest = .ok uber)
    (hclear : Gives (clear s.outputDir) d () d₁)
    (hassemble : Gives (libraries.mapM (assemble s (rules s libraries) uber)) d₁ cs d₂)
    (hindex : Gives (Emission.index s.outputDir libraries s.rootLibrary) d₂ p d₃) :
    Gives (prepare s libraries manifest) d (Counts.sum cs) d₃ := by
  unfold prepare
  refine (gives_records _).bind (hclear.bind ((gives_orFail huber).bind ?_))
  exact hassemble.bind (hindex.bind ((gives_records _).bind gives_pure))

/-- A build that verifies and prepares succeeds. -/
theorem gives_run {x : Verified} {c : Counts} (hverify : Gives (verify s) d x d')
    (hprepare : Gives (prepare s x.libraries x.manifest) d' c d'') :
    Gives (run s) d ⟨x.libraries, s.outputDir, c⟩ d'' :=
  hverify.bind (hprepare.bind gives_pure)

/-! ## Samples -/

namespace Sample

/-- The bytes of a text; nothing but reading a document looks into them. -/
@[irreducible]
def bytesOf (t : Text) : Bytes := Utf8.encode t.toChars

/-- A text as a file. -/
def textFile (t : Text) : Entry := .file (bytesOf t)

/-- A document as a file. -/
def document (v : Json) : Entry := textFile v.write

theorem encode?_eq {t : Text} (h : t.IsChars) : Utf8.encode? t = some (bytesOf t) := by
  rw [bytesOf, Text.encode?_of_isChars h]

theorem gives_put {p : Path} {t : Text} (ht : t.IsChars)
    (h : d.writeFile p (bytesOf t) = (d', none)) : Gives (do writeText p t; return p) d p d' :=
  (gives_writeText (encode?_eq ht) h).bind gives_pure

theorem holds_document {p : Path} {v : Json} (hv : v.Readable) (ht : v.write.IsChars)
    (h : d.read p = .ok (bytesOf v.write)) : Holds d p v := by
  obtain ⟨cs, hcs, hjson⟩ := Json.read_plainLines hv (encode?_eq ht)
  exact ⟨_, cs, h, hcs, hjson⟩

/-- The fields of the manifest of a library. -/
def fields (name : Text) : Fields := [("name", .str name), ("version", .str "1"), ("jsii", .obj [])]

/-- The manifest of an uber-package of libraries with names. -/
def uber (names : List Text) : Json :=
  .obj [("devDependencies", .obj (names.map fun name => (name, .str "1")))]

theorem readable_nil : Json.Readable (.obj []) :=
  .obj List.nodup_nil fun _ hf => absurd hf List.not_mem_nil

theorem readable_fields (name : Text) : Json.Readable (.obj (fields name)) := by
  refine .obj (by decide : (["name", "version", "jsii"] : List Text).Nodup) fun f hf => ?_
  simp only [fields, List.mem_cons, List.not_mem_nil, or_false] at hf
  rcases hf with rfl | rfl | rfl
  · exact .str _
  · exact .str _
  · exact readable_nil

theorem readable_uber {names : List Text} (h : names.Nodup) : (uber names).Readable := by
  refine .obj (List.nodup_singleton _) fun f hf => ?_
  obtain rfl := List.mem_singleton.mp hf
  refine .obj ?_ fun f hf => ?_
  · rwa [Fields.keys, List.map_map, show Prod.fst ∘
      (fun name : Text => (name, Json.str "1")) = id from rfl,
      List.map_id]
  · obtain ⟨name, -, rfl⟩ := List.mem_map.mp hf
    exact .str _

/-- A library in a directory of its own. -/
def library (name directory short : Text) : Library :=
  ⟨⟨fields name⟩, ⟨.slash, ["p", directory]⟩, short⟩

/-- The directory of a library, with its manifest and nothing else. -/
def directory (name directory : Text) : List (Place × Entry) :=
  [(["p", directory], .dir), (["p", directory, "package.json"], document (.obj (fields name)))]

/-- The workspace, the manifest of the uber-package and the root of the libraries. -/
def documents (names : List Text) : List (Place × Entry) :=
  [(["w"], document (.obj [])), (["u"], .dir), (["u", "package.json"], document (uber names)),
    (["p"], .dir)]

/-- Settings with a root of the merged tree. -/
def settings (output : Place) : Settings where
  root := ⟨.slash, ["u"]⟩
  librariesRoot := ⟨.slash, ["p"]⟩
  workspacePath := ⟨.slash, ["w"]⟩
  manifestPath := ⟨.slash, ["u", "package.json"]⟩
  outputDir := ⟨.slash, output⟩
  scope := "@s/"

theorem isResolved_settings {output : Place} (h : ∀ n ∈ output, Text.IsComponent n) :
    (settings output).IsResolved where
  librariesRoot := ⟨rfl, (by decide : ∀ n ∈ (["p"] : Place), Text.IsComponent n)⟩
  workspacePath := ⟨rfl, (by decide : ∀ n ∈ (["w"] : Place), Text.IsComponent n)⟩
  manifestPath := ⟨rfl, (by decide : ∀ n ∈ (["u", "package.json"] : Place), Text.IsComponent n)⟩
  outputDir := ⟨rfl, h⟩

/-- What discovery gives is all that it can give. -/
theorem found_unique {root : Path} {scope : Text} {found found' : Discovery.Found}
    {j : List Record} {v : World} (h : Discovery.Finds d root scope found)
    (h' : Does (Discovery.run root scope) ⟨d, j⟩ found' v) : found' = found := by
  obtain ⟨j', hj'⟩ := Discovery.gives_run h j
  exact Except.ok.inj (Prod.mk.inj (h'.symm.trans hj')).1

/-- A directory with a manifest and nothing else is copied as an empty one. -/
theorem gives_bare {r : Assembly.Rules} {source target : Path}
    (hmake : d.makeDirectories target = (d', none))
    (hlist : d'.list source = .ok ["package.json"]) :
    Gives (Assembly.copyTree r source target) d ⟨0, 0, 1⟩ d' := by
  have hstep : Gives (Assembly.Task.step r (.list source target)) d' { counts := ⟨0, 0, 1⟩ } d' :=
    Assembly.gives_list _ hlist
  have hlisted := Assembly.gives_round (n := 16382) hstep rfl (Assembly.gives_rounds_nil _) rfl
  exact Assembly.gives_round (Assembly.gives_make hmake) rfl hlisted rfl

theorem list_bare {source : Path} (h : d.list source = .ok (Text.sort ["package.json"])) :
    d.list source = .ok ["package.json"] := by
  rw [h, Text.sort_of_sorted (List.pairwise_singleton _ _)]

/-- A directory with a manifest and a source is copied as one with the source redirected. -/
theorem gives_source {r : Assembly.Rules} {source target : Path} {bytes out : Bytes} {d₁ : Disk}
    (hmake : d.makeDirectories target = (d₁, none))
    (hlist : d₁.list source = .ok (Text.sort ["package.json", "y.ts"]))
    (hfile : d₁.isDirectory? (source / ("y.ts" : Text)) = .ok false)
    (hread : d₁.read (source / ("y.ts" : Text)) = .ok bytes) (hignores : r.ignores "y.ts" = false)
    (hout : r.redirected? target bytes = some out)
    (hwrite : d₁.writeFile (target / ("y.ts" : Text)) out = (d', none)) :
    Gives (Assembly.copyTree r source target) d ⟨1, 0, 1⟩ d' := by
  have hsort : Text.sort ["package.json", "y.ts"] = (["package.json", "y.ts"] : List Text) :=
    Text.sort_of_sorted (by decide)
  rw [hsort] at hlist
  have hname : Assembly.ofName r source target "y.ts" =
      { tasks := [.classify source target "y.ts"] } := by
    rw [Assembly.ofName, hignores]
    rfl
  have hstep : Gives (Assembly.Task.step r (.list source target)) d₁
      { tasks := [.classify source target "y.ts"], counts := ⟨0, 0, 1⟩ } d₁ := by
    have hgives := Assembly.gives_list (r := r) target hlist
    rw [List.map_cons, List.map_singleton, hname] at hgives
    exact hgives
  have hwritten := Assembly.gives_round (n := 16379) (r := r) (Assembly.gives_write hwrite) rfl
    (Assembly.gives_rounds_nil _) rfl
  have hredirected := Assembly.gives_round (Assembly.gives_redirect hread hout) rfl hwritten rfl
  have hclassified := Assembly.gives_round (Assembly.gives_classify_source _ hfile (by decide)) rfl
    hredirected rfl
  have hlisted := Assembly.gives_round hstep rfl hclassified rfl
  exact Assembly.gives_round (Assembly.gives_make hmake) rfl hlisted rfl

/-- A directory with the manifest of a library is that of the library. -/
theorem examines_taken {directory : Text} {fs : Fields} {l : Library}
    (hreadable : (Json.obj fs).Readable) (hchars : (Json.obj fs).write.IsChars)
    (hfile : d.isFile? ((⟨.slash, ["p"]⟩ : Path) / directory / Discovery.manifestName) = .ok true)
    (hread : d.read ((⟨.slash, ["p"]⟩ : Path) / directory / Discovery.manifestName) =
      .ok (bytesOf (Json.obj fs).write))
    (htaken : Discovery.ofManifest ((⟨.slash, ["p"]⟩ : Path) / directory) "@s/" ⟨fs⟩ = .taken l) :
    Discovery.Examines d "@s/" ((⟨.slash, ["p"]⟩ : Path) / directory) (.taken l) :=
  htaken ▸ .manifest hfile (holds_document hreadable hchars hread) rfl

/-- What is found where every directory is that of a library. -/
theorem finds_all {names : List Text} {libraries : List Library}
    (hexists : d.exists? ⟨.slash, ["p"]⟩ = .ok true)
    (hroot : d.isDirectory? ⟨.slash, ["p"]⟩ = .ok true)
    (hlist : d.list ⟨.slash, ["p"]⟩ = .ok (Text.sort names))
    (hsorted : names.Pairwise fun m n => Text.le m n = true)
    (hdirectories : ∀ n ∈ names, d.isDirectory? ((⟨.slash, ["p"]⟩ : Path) / n) = .ok true)
    (hexamines : List.Forall₂
      (fun n l => Discovery.Examines d "@s/" ((⟨.slash, ["p"]⟩ : Path) / n) (.taken l))
      names libraries) :
    Discovery.Finds d ⟨.slash, ["p"]⟩ "@s/" ⟨libraries, []⟩ := by
  have htaken : Discovery.libraries (libraries.map .taken) = libraries := by
    rw [Discovery.libraries, List.filterMap_map]
    exact List.filterMap_some
  have hskipped : Discovery.skipped (libraries.map .taken) = [] := by
    rw [Discovery.skipped, List.filterMap_map]
    exact List.filterMap_eq_nil_iff.mpr fun _ _ => rfl
  rw [Text.sort_of_sorted hsorted] at hlist
  refine ⟨hexists, hroot, names, fun _ => true, libraries.map .taken, hlist, fun p hp => ?_, ?_, ?_⟩
  · obtain ⟨n, hn, rfl⟩ := List.mem_map.mp hp
    exact hdirectories n hn
  · rw [List.filter_true, List.forall₂_map_left_iff, List.forall₂_map_right_iff]
    exact hexamines
  · rw [htaken, hskipped]

/-- What is found where there is one library. -/
theorem finds_one {directory : Text} {fs : Fields} {l : Library}
    (hreadable : (Json.obj fs).Readable) (hchars : (Json.obj fs).write.IsChars)
    (hexists : d.exists? ⟨.slash, ["p"]⟩ = .ok true)
    (hroot : d.isDirectory? ⟨.slash, ["p"]⟩ = .ok true)
    (hlist : d.list ⟨.slash, ["p"]⟩ = .ok (Text.sort [directory]))
    (hdirectory : d.isDirectory? ((⟨.slash, ["p"]⟩ : Path) / directory) = .ok true)
    (hfile : d.isFile? ((⟨.slash, ["p"]⟩ : Path) / directory / Discovery.manifestName) = .ok true)
    (hread : d.read ((⟨.slash, ["p"]⟩ : Path) / directory / Discovery.manifestName) =
      .ok (bytesOf (Json.obj fs).write))
    (htaken : Discovery.ofManifest ((⟨.slash, ["p"]⟩ : Path) / directory) "@s/" ⟨fs⟩ = .taken l) :
    Discovery.Finds d ⟨.slash, ["p"]⟩ "@s/" ⟨[l], []⟩ :=
  finds_all hexists hroot hlist (List.pairwise_singleton _ _)
    (fun _ hn => List.mem_singleton.mp hn ▸ hdirectory)
    (.cons (examines_taken hreadable hchars hfile hread htaken) .nil)

/-- Verifying succeeds where the manifest of the uber-package names the libraries, and the workspace
is empty. -/
theorem gives_verify_uber {s : Settings} {names : List Text} {libraries : List Library}
    (hnames : names.Nodup) (hchars : (uber names).write.IsChars)
    (hfinds : Discovery.Finds d s.librariesRoot s.scope ⟨libraries, []⟩)
    (hmanifest : d.read s.manifestPath = .ok (bytesOf (uber names).write))
    (hworkspace : d.read s.workspacePath = .ok (bytesOf (Json.obj []).write))
    (hplan : (Plan.make libraries (uber names) (.obj [])).2 = .ok ⟨[], {}, {}⟩) :
    Gives (verify s) d ⟨libraries, uber names, ⟨[], {}, {}⟩⟩ d :=
  gives_verify hfinds (holds_document (readable_uber hnames) hchars hmanifest)
    (holds_document readable_nil (by decide) hworkspace) hplan rfl rfl

/-! A library with a file and an ignored directory, and the root library, which imports from it. -/

def a : Library := library "@s/a" "a" "a"

def core : Library := library "@s/core" "core" "core"

/-- A source that imports a file, and one in the ignored directory. -/
def importing : List Char := "import '@s/a/x';\nimport '@s/a/test/y';\n".toList

/-- The source, redirected for the directory of the root library. -/
def redirected : Bytes :=
  (rules (settings ["u", "lib"]) [a, core]).redirected ⟨.slash, ["u", "lib", "core"]⟩
    (Utf8.encode importing)

/-- What stands at first, and then what is made, one after the other. -/
def entries : List (Place × Entry) :=
  documents ["@s/a", "@s/core"] ++ directory "@s/a" "a" ++ directory "@s/core" "core" ++
    ([(["p", "a", "test"], .dir), (["p", "a", "test", "y"], .file []),
      (["p", "a", "x"], .file [98]),
      (["p", "core", "y.ts"], .file (Utf8.encode importing)),
      (["u", "lib"], .dir), (["u", "lib", "a"], .dir), (["u", "lib", "a", "x"], .file [98]),
      (["u", "lib", "a", "index.ts"], textFile (Glue.entryPoint {} a)),
      (["u", "lib", "a", ".jsiirc.json"], textFile (Emission.bindingsFile none).write),
      (["u", "a.ts"], textFile (Glue.shim {} ⟨.slash, ["u", "lib"]⟩ a)),
      (["u", "lib", "core"], .dir), (["u", "lib", "core", "y.ts"], .file redirected),
      (["u", "lib", "core", "index.ts"], textFile (Glue.entryPoint {} core)),
      (["u", "lib", "index.ts"], textFile (Glue.index {} "core" [a, core]))] : List (Place × Entry))

/-- The disk when `n` entries have been made. -/
def disk (n : Nat) : Disk := { entries := entries.take (12 + n), cwd := [], tag := "t" }

theorem isFileTree_disk : (disk 0).IsFileTree where
  distinct := by decide
  tree := Disk.isTree_of_entries (by decide)
  tag := by decide

theorem finds : Discovery.Finds (disk 0) ⟨.slash, ["p"]⟩ "@s/" ⟨[a, core], []⟩ := by
  refine @finds_all _ ["a", "core"] _ rfl rfl rfl (by decide) (fun n hn => ?_)
    (.cons (examines_taken (readable_fields "@s/a") (by decide) rfl rfl rfl)
      (.cons (examines_taken (readable_fields "@s/core") (by decide) rfl rfl rfl) .nil))
  rcases List.mem_pair.mp hn with rfl | rfl <;> rfl

theorem verifies : Gives (verify (settings ["u", "lib"])) (disk 0)
    ⟨[a, core], uber ["@s/a", "@s/core"], ⟨[], {}, {}⟩⟩ (disk 0) :=
  gives_verify_uber (by decide) (by decide) finds rfl rfl rfl

theorem copies_a : Gives (Assembly.copyTree (rules (settings ["u", "lib"]) [a, core]) a.root
    ⟨.slash, ["u", "lib", "a"]⟩) (disk 0) ⟨0, 1, 2⟩ (disk 3) := by
  have hsort : Text.sort ["package.json", "test", "x"] = ["package.json", "test", "x"] :=
    Text.sort_of_sorted (by decide)
  have hlist : (disk 2).list a.root = .ok ["package.json", "test", "x"] := congrArg Except.ok hsort
  have hmake : (disk 0).makeDirectories ⟨.slash, ["u", "lib", "a"]⟩ = (disk 2, none) := rfl
  have hfile : (disk 2).isDirectory? (a.root / ("x" : Text)) = .ok false := rfl
  have hcopy : (disk 2).copyFile (a.root / ("x" : Text))
    ((⟨.slash, ["u", "lib", "a"]⟩ : Path) / ("x" : Text)) = (disk 3, none) := rfl
  have hcopied := Assembly.gives_round (n := 16380)
    (Assembly.gives_copy (r := rules (settings ["u", "lib"]) [a, core]) hcopy) rfl
    (Assembly.gives_rounds_nil _) rfl
  have hclassified := Assembly.gives_round (Assembly.gives_classify _ hfile rfl) rfl hcopied rfl
  have hlisted := Assembly.gives_round (Assembly.gives_list _ hlist) rfl hclassified rfl
  exact Assembly.gives_round (Assembly.gives_make hmake) rfl hlisted rfl

theorem assembles_a :
    Gives (assemble (settings ["u", "lib"]) (rules (settings ["u", "lib"]) [a, core]) none a)
    (disk 0) ⟨0, 1, 2⟩ (disk 6) := by
  have hentry : Gives (Emission.entryPoint ⟨.slash, ["u", "lib"]⟩ a) (disk 3) _ (disk 4) :=
    gives_put (by decide) rfl
  have hbindings : Gives (Emission.bindings ⟨.slash, ["u", "lib"]⟩ a none) (disk 4) _ (disk 5) :=
    gives_put (by decide) rfl
  have hshim : Gives (Emission.shim ⟨.slash, ["u", "lib"]⟩ a) (disk 5) _ (disk 6) :=
    gives_put (by decide) rfl
  exact gives_assemble_other (by decide) copies_a hentry rfl rfl hbindings hshim

theorem redirects_importing : (rules (settings ["u", "lib"]) [a, core]).redirected?
    ⟨.slash, ["u", "lib", "core"]⟩ (Utf8.encode importing) = some redirected :=
  Assembly.Rules.redirected?_ascii ⟨by decide, by decide, by decide⟩ rfl
    (Utf8.isAscii_encode (by decide)) _

theorem copies_core : Gives (Assembly.copyTree (rules (settings ["u", "lib"]) [a, core]) core.root
    ⟨.slash, ["u", "lib", "core"]⟩) (disk 6) ⟨1, 0, 1⟩ (disk 8) :=
  gives_source rfl rfl rfl rfl rfl redirects_importing rfl

theorem assembles_core :
    Gives (assemble (settings ["u", "lib"]) (rules (settings ["u", "lib"]) [a, core]) none core)
    (disk 6) ⟨1, 0, 1⟩ (disk 9) := by
  have hentry : Gives (Emission.entryPoint ⟨.slash, ["u", "lib"]⟩ core) (disk 8) _ (disk 9) :=
    gives_put (by decide) rfl
  exact gives_assemble_root rfl copies_core hentry

theorem runs : Gives (run (settings ["u", "lib"])) (disk 0)
    ⟨[a, core], ⟨.slash, ["u", "lib"]⟩, ⟨1, 1, 3⟩⟩ (disk 10) := by
  have huber : targetsOf (uber ["@s/a", "@s/core"]) = .ok none := rfl
  have hclear : Gives (clear (settings ["u", "lib"]).outputDir) (disk 0) () (disk 0) :=
    gives_clear rfl
  have hassemble : Gives ([a, core].mapM
      (assemble (settings ["u", "lib"]) (rules (settings ["u", "lib"]) [a, core]) none)) (disk 0)
      [⟨0, 1, 2⟩, ⟨1, 0, 1⟩] (disk 9) :=
    assembles_a.mapM_cons (assembles_core.mapM_cons gives_mapM_nil)
  have hindex : Gives (Emission.index (settings ["u", "lib"]).outputDir [a, core] "core")
      (disk 9) _ (disk 10) :=
    gives_put (by decide) rfl
  exact gives_run verifies (gives_prepare huber hclear hassemble hindex)

end Sample

end Build

end UberPackage
