/-
  References in the merged tree.

  A specifier that is redirected names a place in the directory of its library.  When a build
  succeeds, a module is there to be named: the entry point, or a file of the library that copying
  keeps (`Build.run_resolvable`).  Where nothing is kept, a specifier of a copied source is
  redirected all the same, and leads nowhere (`Build.run_dangles`).

  A file that is kept is told by which places of its library have something, and this stays the same
  up to the turn of the library (`Build.sameKinds_of_run`).
-/
import UberPackage.Proofs.Assembly.Arrival
import UberPackage.Proofs.Build.Kinds
import UberPackage.Proofs.Layout

namespace UberPackage

/-- What is kept is told by which places have something. -/
theorem Assembly.Rules.keeps_congr (r : Rules) {d e : Disk} {top : Place}
    (h : ∀ y, (e.entryAt? (top ++ y)).isSome = (d.entryAt? (top ++ y)).isSome) (y : Place) :
    r.keeps e top y = r.keeps d top y := by
  induction y generalizing top with
  | nil => rfl
  | cons n y ih =>
    have hdrops : r.drops e top n = r.drops d top n := by
      unfold drops
      refine congrArg (r.ignores n || ·) ?_
      cases Suffix.sourceCounterpart? n with
      | none => rfl
      | some c => exact h [c]
    have hrest : r.keeps e (top ++ [n]) y = r.keeps d (top ++ [n]) y := ih fun z => by
      rw [List.append_assoc]
      exact h (n :: z)
    rw [keeps, keeps, hdrops, hrest]

/-! ## Modules -/

namespace Layout

/-- What the name of a module's file can add to the specifier of the module. -/
def moduleEndings : List Text := ["", ".ts", ".d.ts", "/index.ts"]

/-- Where a file of a module lies below the directory of its library. -/
def moduleFile (sub ending : Text) : Place := Path.partsOf (sub ++ ending)

end Layout

namespace Build

open Act Disk

variable {s : Settings} {w w' : World} {b : Built}

/-- Each library has its turn, and up to then its directory has kept its kinds of entries. -/
theorem sameKinds_of_run (hs : s.IsResolved) (hw : w.disk.IsFileTree) (h : Does (run s) w b w')
    (hshort : ∀ l ∈ b.libraries, l.shortName.IsPlain) {l : Library} (hl : l ∈ b.libraries) :
    ∃ uber u c u', Does (assemble s (rules s b.libraries) uber l) u c u' ∧ u.disk.IsFileTree ∧
      (Place.Unrelated s.outputDir.parts l.root.parts → SameKinds w.disk u.disk l.root.parts) ∧
      ∀ q, (∃ bytes, u'.disk.entryAt? q = some (.file bytes)) →
        ∃ bytes, w'.disk.entryAt? q = some (.file bytes) := by
  obtain ⟨uber, u, c, u', after, cs, v₂, v₃, hcomes, hturn, hrest, hafter, hindex, hv₃⟩ :=
    comesTo_of_run h hl
  obtain ⟨hu, hkinds⟩ := hcomes.sameKinds hs hw hshort
  obtain ⟨-, hu', -⟩ := (within_assemble hs b.libraries uber (hshort l hl)).does hu hturn
  obtain ⟨hgrows, -, -⟩ :=
    (within_assemble_all hs b.libraries uber fun k hk => hshort k (hrest k hk)).does hu' hafter
  refine ⟨uber, u, c, u', hturn, hu, hkinds, fun q ⟨bytes, hq⟩ => ?_⟩
  rw [← hv₃]
  exact (index_does hs hindex).keepsFile (hgrows.file hq)

/-- What assembling a library has copied, it keeps, and the entry point is there. -/
theorem keepsFile_of_assemble (hs : s.IsResolved) {libraries : List Library} {uber : Option Json}
    {l : Library} (hl : l.shortName.IsPlain) {u u' : World} {c : Counts}
    (h : Does (assemble s (rules s libraries) uber l) u c u') :
    (∃ bytes, u'.disk.entryAt? ((s.directory l).parts ++ [Emission.indexName]) =
      some (.file bytes)) ∧
    ∃ v₀ v₁, v₀.disk = u.disk ∧
      Does (Assembly.copyTree (rules s libraries) l.root (s.directory l)) v₀ c v₁ ∧
      ∀ q, (∃ bytes, v₁.disk.entryAt? q = some (.file bytes)) →
        ∃ bytes, u'.disk.entryAt? q = some (.file bytes) := by
  obtain ⟨v₀, v₁, d₂, hv₀, hcopy, hentry, hrest⟩ := assemble_does hs hl h
  have hlater : ∀ q, (∃ bytes, d₂.entryAt? q = some (.file bytes)) →
      ∃ bytes, u'.disk.entryAt? q = some (.file bytes) := by
    intro q hq
    split at hrest
    · rwa [hrest]
    · obtain ⟨own, nested, d₃, -, -, hbindings, hshim⟩ := hrest
      exact hshim.keepsFile (hbindings.keepsFile hq)
  obtain ⟨bytes, -, hbytes⟩ := hentry.file
  exact ⟨hlater _ ⟨bytes, hbytes⟩, v₀, v₁, hv₀, hcopy, fun q hq => hlater q (hentry.keepsFile hq)⟩

/-- A file that copying keeps is in the merged tree when a build succeeds. -/
theorem kept_of_run (hs : s.IsResolved) (hw : w.disk.IsFileTree) (h : Does (run s) w b w')
    (hshort : ∀ l ∈ b.libraries, l.shortName.IsPlain) {l : Library} (hl : l ∈ b.libraries)
    (hapart : Place.Unrelated s.outputDir.parts l.root.parts) {y : Place} {bytes : Bytes}
    (hfile : w.disk.entryAt? (l.root.parts ++ y) = some (.file bytes))
    (hkeeps : (rules s b.libraries).keeps w.disk l.root.parts y = true) :
    ∃ bytes', w'.disk.entryAt? ((s.directory l).parts ++ y) = some (.file bytes') := by
  obtain ⟨hroot, hdir⟩ := library_does hs hw h hl
  obtain ⟨uber, u, c, u', hturn, hu, hkinds, hlast⟩ := sameKinds_of_run hs hw h hshort hl
  replace hkinds := hkinds hapart
  obtain ⟨-, v₀, v₁, hv₀, hcopy, hlater⟩ := keepsFile_of_assemble hs (hshort l hl) hturn
  obtain ⟨bytes', hfile'⟩ := hkinds.file hfile
  let m : Assembly.Mirror := ⟨rules s b.libraries, u.disk, l.root, s.directory l⟩
  have hseparate : m.Separate := ⟨hu, hroot, Settings.isResolved_directory hs (hshort l hl),
    Settings.unrelated_directory (hshort l hl) hapart⟩
  have htop : m.top = l.root.parts := hseparate.top_eq
  have htop' : m.original? [] = some .dir := by
    rw [Assembly.Mirror.original?, htop]
    exact hkinds.dir (y := []) (by rw [List.append_nil, hdir])
  have hkept : m.keeps y = true := by
    rw [Assembly.Mirror.keeps, htop]
    exact (Assembly.Rules.keeps_congr _ hkinds.isSome y).trans hkeeps
  have horiginal : m.original? y = some (.file bytes') := by
    rw [Assembly.Mirror.original?, htop]
    exact hfile'
  exact hlast _ (hlater _ (Assembly.Mirror.arrives hseparate htop' hkept horiginal hv₀ hcopy))

/-- The parts of a relative specifier that does not lead back are ordinary. -/
theorem below_specifier {sub : Text} (hrelative : Path.anchorOf sub = .none)
    (hdots : (".." : Text) ∉ Path.partsOf sub) (p : Path) :
    p / sub = p.down (Path.partsOf sub) ∧ ∀ n ∈ Path.partsOf sub, n.IsComponent := by
  refine ⟨?_, fun n hn => ?_⟩
  · show p.append sub = _
    rw [Path.append, Path.ofText, hrelative, Path.down]
  · refine (Path.hasParts_ofText sub n hn).resolve_left ?_
    rintro rfl
    exact hdots hn

/-- **Redirected references can be resolved**: when a build succeeds, each specifier that the layout
redirects is that of a library or of a module in it, and leads to the same module in the directory
of the library.  The entry point of the library is there; and wherever the module has a file in the
library that copying keeps, it has that file in the merged tree.  The short names have to be no
paths, and the library and the merged tree not inside one another. -/
theorem run_resolvable (hs : s.IsResolved) (hw : w.disk.IsFileTree) (h : Does (run s) w b w')
    (hshort : ∀ l ∈ b.libraries, l.shortName.IsPlain) {specifier t : Text} {directory : Path}
    (hd : directory.IsResolved)
    (ht : (rules s b.libraries).layout.resolve? specifier directory = some t) :
    ∃ l ∈ b.libraries,
      (specifier = l.name ∧
        (∀ cwd, (directory / t).resolve cwd = s.directory l / ("index" : Text)) ∧
        ∃ bytes, w'.disk.entryAt? ((s.directory l).parts ++ [("index.ts" : Text)]) =
          some (.file bytes)) ∨
      ∃ sub, specifier = l.name ++ .char '/' :: sub ∧
        (Path.anchorOf sub = .none → (".." : Text) ∉ Path.partsOf sub →
          (∀ cwd, (directory / t).resolve cwd = (s.directory l).down (Path.partsOf sub)) ∧
          (Place.Unrelated s.outputDir.parts l.root.parts →
            ∀ ending ∈ Layout.moduleEndings, ∀ bytes,
            w.disk.entryAt? (l.root.parts ++ Layout.moduleFile sub ending) = some (.file bytes) →
            (rules s b.libraries).keeps w.disk l.root.parts (Layout.moduleFile sub ending) = true →
            ∃ bytes', w'.disk.entryAt? ((s.directory l).parts ++ Layout.moduleFile sub ending) =
              some (.file bytes'))) := by
  rw [Layout.resolve?, Option.map_eq_some_iff] at ht
  obtain ⟨l, hprovider, rfl⟩ := ht
  obtain ⟨hl, hprovides⟩ := Layout.mem_of_provider? hprovider
  have hdirectory := Settings.isResolved_directory hs (hshort l hl)
  refine ⟨l, hl, (Layout.specifier_cases hprovides).imp (fun hname => ?_) ?_⟩
  · subst hname
    refine ⟨rfl, fun cwd => ?_, ?_⟩
    · rw [Layout.place_name]
      exact Layout.resolve_dotted hd (hdirectory.child (by decide)) _ cwd
    · obtain ⟨uber, u, c, u', hturn, -, -, hlast⟩ := sameKinds_of_run hs hw h hshort hl
      exact hlast _ (keepsFile_of_assemble hs (hshort l hl) hturn).1
  · rintro ⟨sub, rfl⟩
    refine ⟨sub, rfl, fun hrelative hdots => ⟨fun cwd => ?_, ?_⟩⟩
    · obtain ⟨hbelow, hparts⟩ := below_specifier hrelative hdots (s.directory l)
      rw [Layout.place_below]
      show (directory / Layout.dotted
        ((s.directory l / sub).relativeTo directory _)).resolve cwd = _
      rw [hbelow]
      exact Layout.resolve_dotted hd (hdirectory.down hparts) _ cwd
    · exact fun hapart ending _ bytes hfile hkeeps =>
        kept_of_run hs hw h hshort hl hapart hfile hkeeps

theorem run_resolvable_sample :
    (Sample.settings ["u", "lib"]).IsResolved ∧ (Sample.disk 0).IsFileTree ∧
    ∃ b w', Does (run (Sample.settings ["u", "lib"])) ⟨Sample.disk 0, []⟩ b w' ∧
      (∀ l ∈ b.libraries, l.shortName.IsPlain) ∧
      (⟨.slash, ["u", "lib", "core"]⟩ : Path).IsResolved ∧
      (rules (Sample.settings ["u", "lib"]) b.libraries).layout.resolve? "@s/a/x"
        ⟨.slash, ["u", "lib", "core"]⟩ = some "../a/x" ∧
      ∃ l ∈ b.libraries,
        (("@s/a/x" : Text) = l.name ∧
            (∀ cwd, ((⟨.slash, ["u", "lib", "core"]⟩ : Path) / ("../a/x" : Text)).resolve cwd =
            (Sample.settings ["u", "lib"]).directory l / ("index" : Text)) ∧
          ∃ bytes, w'.disk.entryAt? (((Sample.settings ["u", "lib"]).directory l).parts ++
            [("index.ts" : Text)]) = some (.file bytes)) ∨
        ∃ sub, ("@s/a/x" : Text) = l.name ++ .char '/' :: sub ∧
          (Path.anchorOf sub = .none → (".." : Text) ∉ Path.partsOf sub →
            (∀ cwd, ((⟨.slash, ["u", "lib", "core"]⟩ : Path) / ("../a/x" : Text)).resolve cwd =
              ((Sample.settings ["u", "lib"]).directory l).down (Path.partsOf sub)) ∧
            (Place.Unrelated ["u", "lib"] l.root.parts → ∀ ending ∈ Layout.moduleEndings, ∀ bytes,
              (Sample.disk 0).entryAt? (l.root.parts ++ Layout.moduleFile sub ending) =
                some (.file bytes) →
              (rules (Sample.settings ["u", "lib"]) b.libraries).keeps (Sample.disk 0) l.root.parts
                (Layout.moduleFile sub ending) = true →
              ∃ bytes', w'.disk.entryAt? (((Sample.settings ["u", "lib"]).directory l).parts ++
                Layout.moduleFile sub ending) = some (.file bytes'))) := by
  obtain ⟨j, hj⟩ := Sample.runs []
  have hs : (Sample.settings ["u", "lib"]).IsResolved := Sample.isResolved_settings (by decide)
  have hshort : ∀ l ∈ [Sample.a, Sample.core], l.shortName.IsPlain := by decide
  have hd : (⟨.slash, ["u", "lib", "core"]⟩ : Path).IsResolved := ⟨rfl, by decide⟩
  have ht : (rules (Sample.settings ["u", "lib"]) [Sample.a, Sample.core]).layout.resolve? "@s/a/x"
      ⟨.slash, ["u", "lib", "core"]⟩ = some "../a/x" := by decide
  exact ⟨hs, Sample.isFileTree_disk, _, _, hj, hshort, hd, ht,
    run_resolvable hs Sample.isFileTree_disk hj hshort hd ht⟩

namespace Sample

/-! A library whose directory is the root of the merged tree, and is cleared before the library is
copied.  Its name is ignored, so that it is not copied into itself. -/

def burying : Settings := { settings ["p", "a"] with ignored := ["a"] }

theorem isResolved_burying : burying.IsResolved :=
  have hs : (settings ["p", "a"]).IsResolved := isResolved_settings (by decide)
  ⟨hs.librariesRoot, hs.workspacePath, hs.manifestPath, hs.outputDir⟩

/-- A source that imports a file of the library. -/
def importingFile : List Char := "import '@s/a/x';".toList

/-- What stands at first. -/
def buried : Disk where
  entries := documents ["@s/a", "@s/core"] ++ directory "@s/a" "a" ++ directory "@s/core" "core" ++
    ([(["p", "a", "x"], .file [98]), (["p", "core", "y.ts"], .file (Utf8.encode importingFile))] :
      List (Place × Entry))
  cwd := []
  tag := "t"

/-- The source, redirected for the directory of the root library. -/
def redirectedFile : Bytes :=
  (rules burying [a, core]).redirected ⟨.slash, ["p", "a", "core"]⟩ (Utf8.encode importingFile)

/-- What is left, and then what is made, one after the other. -/
def buriedEntries : List (Place × Entry) :=
  documents ["@s/a", "@s/core"] ++ directory "@s/core" "core" ++
    ([(["p", "core", "y.ts"], .file (Utf8.encode importingFile)),
      (["p", "a"], .dir), (["p", "a", "a"], .dir),
      (["p", "a", "a", "index.ts"], textFile (Glue.entryPoint {} a)),
      (["p", "a", "a", ".jsiirc.json"], textFile (Emission.bindingsFile none).write),
      (["p", "a.ts"], textFile (Glue.shim {} ⟨.slash, ["p", "a"]⟩ a)),
      (["p", "a", "core"], .dir), (["p", "a", "core", "y.ts"], .file redirectedFile),
      (["p", "a", "core", "index.ts"], textFile (Glue.entryPoint {} core)),
      (["p", "a", "index.ts"], textFile (Glue.index {} "core" [a, core]))] : List (Place × Entry))

/-- The disk when the merged tree has been cleared and `n` entries have been made. -/
def buriedDisk (n : Nat) : Disk := { entries := buriedEntries.take (7 + n), cwd := [], tag := "t" }

theorem buried_finds : Discovery.Finds buried ⟨.slash, ["p"]⟩ "@s/" ⟨[a, core], []⟩ := by
  refine @finds_all _ ["a", "core"] _ rfl rfl rfl (by decide) (fun n hn => ?_)
    (.cons (examines_taken (readable_fields "@s/a") (by decide) rfl rfl rfl)
      (.cons (examines_taken (readable_fields "@s/core") (by decide) rfl rfl rfl) .nil))
  rcases List.mem_pair.mp hn with rfl | rfl <;> rfl

theorem buried_verifies : Gives (verify burying) buried
    ⟨[a, core], uber ["@s/a", "@s/core"], ⟨[], {}, {}⟩⟩ buried :=
  gives_verify_uber (by decide) (by decide) buried_finds rfl rfl rfl

theorem buried_assembles : Gives (assemble burying (rules burying [a, core]) none a) (buriedDisk 0)
    ⟨0, 0, 1⟩ (buriedDisk 5) := by
  have hsort : Text.sort ["a"] = ["a"] := Text.sort_of_sorted (List.pairwise_singleton _ _)
  have hlist : (buriedDisk 2).list a.root = .ok ["a"] := congrArg Except.ok hsort
  have hcopy : Gives (Assembly.copyTree (rules burying [a, core]) a.root ⟨.slash, ["p", "a", "a"]⟩)
      (buriedDisk 0) ⟨0, 0, 1⟩ (buriedDisk 2) := by
    have hstep : Gives (Assembly.Task.step (rules burying [a, core])
        (.list a.root ⟨.slash, ["p", "a", "a"]⟩)) (buriedDisk 2) { counts := ⟨0, 0, 1⟩ }
        (buriedDisk 2) := Assembly.gives_list _ hlist
    have hlisted := Assembly.gives_round (n := 16382) hstep rfl (Assembly.gives_rounds_nil _) rfl
    exact Assembly.gives_round (Assembly.gives_make rfl) rfl hlisted rfl
  have hentry :
      Gives (Emission.entryPoint ⟨.slash, ["p", "a"]⟩ a) (buriedDisk 2) _ (buriedDisk 3) :=
    gives_put (by decide) rfl
  have hbindings : Gives (Emission.bindings ⟨.slash, ["p", "a"]⟩ a none) (buriedDisk 3) _
    (buriedDisk 4) := gives_put (by decide) rfl
  have hshim : Gives (Emission.shim ⟨.slash, ["p", "a"]⟩ a) (buriedDisk 4) _ (buriedDisk 5) :=
    gives_put (by decide) rfl
  exact gives_assemble_other (by decide) hcopy hentry rfl rfl hbindings hshim

theorem redirects_file : (rules burying [a, core]).redirected? ⟨.slash, ["p", "a", "core"]⟩
    (Utf8.encode importingFile) = some redirectedFile :=
  Assembly.Rules.redirected?_ascii ⟨by decide, by decide, by decide⟩ rfl
    (Utf8.isAscii_encode (by decide)) _

theorem buried_copies : Gives (Assembly.copyTree (rules burying [a, core]) core.root
    ⟨.slash, ["p", "a", "core"]⟩) (buriedDisk 5) ⟨1, 0, 1⟩ (buriedDisk 7) :=
  gives_source rfl rfl rfl rfl rfl redirects_file rfl

theorem buried_runs : Gives (run burying) buried
    ⟨[a, core], ⟨.slash, ["p", "a"]⟩, ⟨1, 0, 2⟩⟩ (buriedDisk 9) := by
  have huber : targetsOf (uber ["@s/a", "@s/core"]) = .ok none := rfl
  have hclear : Gives (clear burying.outputDir) buried () (buriedDisk 0) := gives_clear_tree rfl rfl
  have hentry : Gives (Emission.entryPoint ⟨.slash, ["p", "a"]⟩ core) (buriedDisk 7) _
    (buriedDisk 8) := gives_put (by decide) rfl
  have hcore : Gives (assemble burying (rules burying [a, core]) none core) (buriedDisk 5)
      ⟨1, 0, 1⟩ (buriedDisk 8) := gives_assemble_root rfl buried_copies hentry
  have hindex : Gives (Emission.index burying.outputDir [a, core] "core") (buriedDisk 8) _
    (buriedDisk 9) := gives_put (by decide) rfl
  exact gives_run buried_verifies (gives_prepare huber hclear
    (buried_assembles.mapM_cons (hcore.mapM_cons gives_mapM_nil)) hindex)

/-! A library whose short name leads into another library, where it writes the source of a file. -/

def intruder : Library := library "@s/../../p/a" "0" "../../p/a"

/-- Settings that also ignore what is written into the directory of a library. -/
def heedless : Settings := { settings ["u", "lib"] with ignored := ["index.ts", ".jsiirc.json"] }

theorem isResolved_heedless : heedless.IsResolved :=
  have hs : (settings ["u", "lib"]).IsResolved := isResolved_settings (by decide)
  ⟨hs.librariesRoot, hs.workspacePath, hs.manifestPath, hs.outputDir⟩

/-- A source that imports the file under the name of its own library. -/
def importingOwn : List Char := "import '@s/a/index.js';".toList

/-- The source, redirected for the directory of the library. -/
def redirectedOwn : Bytes :=
  (rules heedless [intruder, a]).redirected ⟨.slash, ["u", "lib", "a"]⟩ (Utf8.encode importingOwn)

/-- What stands at first, and then what is made, one after the other. -/
def intrudedEntries : List (Place × Entry) :=
  documents ["@s/../../p/a", "@s/a"] ++ directory "@s/../../p/a" "0" ++ directory "@s/a" "a" ++
    ([(["p", "a", "index.js"], .file []), (["p", "a", "y.ts"], .file (Utf8.encode importingOwn)),
      (["u", "lib"], .dir),
      (["p", "a", "index.ts"], textFile (Glue.entryPoint {} intruder)),
      (["p", "a", ".jsiirc.json"], textFile (Emission.bindingsFile none).write),
      (["p", "a.ts"], textFile (Glue.shim {} ⟨.slash, ["u", "lib"]⟩ intruder)),
      (["u", "lib", "a"], .dir), (["u", "lib", "a", "y.ts"], .file redirectedOwn),
      (["u", "lib", "a", "index.ts"], textFile (Glue.entryPoint {} a)),
      (["u", "lib", "a", ".jsiirc.json"], textFile (Emission.bindingsFile none).write),
      (["u", "a.ts"], textFile (Glue.shim {} ⟨.slash, ["u", "lib"]⟩ a)),
      (["u", "lib", "index.ts"], textFile (Glue.index {} "core" [intruder, a]))] :
        List (Place × Entry))

/-- The disk when `n` entries have been made. -/
def intruded (n : Nat) : Disk := { entries := intrudedEntries.take (10 + n), cwd := [], tag := "t" }

theorem intruded_finds :
    Discovery.Finds (intruded 0) ⟨.slash, ["p"]⟩ "@s/" ⟨[intruder, a], []⟩ := by
  refine @finds_all _ ["0", "a"] _ rfl rfl rfl (by decide) (fun n hn => ?_)
    (.cons (examines_taken (readable_fields "@s/../../p/a") (by decide) rfl rfl rfl)
      (.cons (examines_taken (readable_fields "@s/a") (by decide) rfl rfl rfl) .nil))
  rcases List.mem_pair.mp hn with rfl | rfl <;> rfl

theorem intruded_verifies (ignored : List Text) :
    Gives (verify { settings ["u", "lib"] with ignored := ignored }) (intruded 0)
      ⟨[intruder, a], uber ["@s/../../p/a", "@s/a"], ⟨[], {}, {}⟩⟩ (intruded 0) :=
  gives_verify_uber (by decide) (by decide) intruded_finds rfl rfl rfl

theorem intruder_assembles (ignored : List Text) :
    Gives (assemble { settings ["u", "lib"] with ignored := ignored }
        (rules { settings ["u", "lib"] with ignored := ignored } [intruder, a]) none intruder)
      (intruded 0) ⟨0, 0, 1⟩ (intruded 4) := by
  have hcopy :
      Gives (Assembly.copyTree
          (rules { settings ["u", "lib"] with ignored := ignored } [intruder, a])
          intruder.root ((⟨.slash, ["u", "lib"]⟩ : Path) / intruder.shortName))
        (intruded 0) ⟨0, 0, 1⟩ (intruded 1) :=
    gives_bare rfl (list_bare rfl)
  have hentry :
      Gives (Emission.entryPoint ⟨.slash, ["u", "lib"]⟩ intruder) (intruded 1) _ (intruded 2) :=
    gives_put (by decide) rfl
  have hbindings :
      Gives (Emission.bindings ⟨.slash, ["u", "lib"]⟩ intruder none) (intruded 2) _ (intruded 3) :=
    gives_put (by decide) rfl
  have hshim : Gives (Emission.shim ⟨.slash, ["u", "lib"]⟩ intruder) (intruded 3) _ (intruded 4) :=
    gives_put (by decide) rfl
  have hroot : intruder.shortName ≠ "core" := by decide
  exact gives_assemble_other hroot hcopy hentry rfl rfl hbindings hshim

theorem redirects_own : (rules heedless [intruder, a]).redirected? ⟨.slash, ["u", "lib", "a"]⟩
    (Utf8.encode importingOwn) = some redirectedOwn :=
  Assembly.Rules.redirected?_ascii ⟨by decide, by decide, by decide⟩ rfl
    (Utf8.isAscii_encode (by decide)) _

/-- The file is passed over, as its source has been written beside it. -/
theorem intruded_copies : Gives (Assembly.copyTree (rules heedless [intruder, a]) a.root
    ⟨.slash, ["u", "lib", "a"]⟩) (intruded 4) ⟨1, 0, 4⟩ (intruded 6) := by
  let names : List Text := [".jsiirc.json", "index.js", "index.ts", "package.json", "y.ts"]
  have hsort : Text.sort ["package.json", "index.js", "y.ts", "index.ts", ".jsiirc.json"] = names :=
    Text.sort_of_perm (by decide) (by decide)
  have hlist : (intruded 5).list a.root = .ok names := congrArg Except.ok hsort
  have hcompare : Gives (Assembly.Task.step (rules heedless [intruder, a])
      (.compare a.root ⟨.slash, ["u", "lib", "a"]⟩ "index.js" "index.ts")) (intruded 5)
      { counts := { skipped := 1 } } (intruded 5) := Assembly.gives_compare _ _ rfl
  have hfile : (intruded 5).isDirectory? (a.root / ("y.ts" : Text)) = .ok false := rfl
  have hread : (intruded 5).read (a.root / ("y.ts" : Text)) = .ok (Utf8.encode importingOwn) := rfl
  have hwrite : (intruded 5).writeFile ((⟨.slash, ["u", "lib", "a"]⟩ : Path) / ("y.ts" : Text))
    redirectedOwn = (intruded 6, none) := rfl
  have hwritten := Assembly.gives_round (n := 16379) (r := rules heedless [intruder, a])
    (Assembly.gives_write hwrite) rfl (Assembly.gives_rounds_nil _) rfl
  have hredirected := Assembly.gives_round (Assembly.gives_redirect hread redirects_own) rfl
    hwritten rfl
  have hcompared := Assembly.gives_rounds (hcompare.mapM_cons
    ((Assembly.gives_classify_source _ hfile (by decide)).mapM_cons gives_mapM_nil)) rfl
      hredirected rfl
  have hlisted := Assembly.gives_round (Assembly.gives_list _ hlist) rfl hcompared rfl
  exact Assembly.gives_round (Assembly.gives_make rfl) rfl hlisted rfl

theorem intruded_runs :
    Gives (run heedless) (intruded 0) ⟨[intruder, a], ⟨.slash, ["u", "lib"]⟩, ⟨1, 0, 5⟩⟩
    (intruded 10) := by
  have huber : targetsOf (uber ["@s/../../p/a", "@s/a"]) = .ok none := rfl
  have hclear : Gives (clear heedless.outputDir) (intruded 0) () (intruded 0) := gives_clear rfl
  have hintruder :
      Gives (assemble heedless (rules heedless [intruder, a]) none intruder) (intruded 0)
        ⟨0, 0, 1⟩ (intruded 4) := intruder_assembles _
  have ha : Gives (assemble heedless (rules heedless [intruder, a]) none a) (intruded 4)
      ⟨1, 0, 4⟩ (intruded 9) := by
    have hentry :
        Gives (Emission.entryPoint ⟨.slash, ["u", "lib"]⟩ a) (intruded 6) _ (intruded 7) :=
      gives_put (by decide) rfl
    have hbindings :
        Gives (Emission.bindings ⟨.slash, ["u", "lib"]⟩ a none) (intruded 7) _ (intruded 8) :=
      gives_put (by decide) rfl
    have hshim : Gives (Emission.shim ⟨.slash, ["u", "lib"]⟩ a) (intruded 8) _ (intruded 9) :=
      gives_put (by decide) rfl
    exact gives_assemble_other (by decide) intruded_copies hentry rfl rfl hbindings hshim
  have hindex :
      Gives (Emission.index heedless.outputDir [intruder, a] "core") (intruded 9) _ (intruded 10) :=
    gives_put (by decide) rfl
  exact gives_run (intruded_verifies _)
    (gives_prepare huber hclear (hintruder.mapM_cons (ha.mapM_cons gives_mapM_nil)) hindex)

end Sample

/-- A source imports a specifier, and stands in the merged tree with its text redirected. -/
structure Imported (s : Settings) (w w' : World) (libraries : List Library) (specifier : Text)
    (l : Library) (y : Place) (cs : List Char) (out : Bytes) : Prop where
  member : l ∈ libraries
  isSource : Suffix.isSource (Assembly.Mirror.nameOf y) = true
  imports :
    ∃ before after : Text, Text.ofChars cs = before ++ "import '" ++ specifier ++ "';" ++ after
  source : w.disk.entryAt? (l.root.parts ++ y) = some (.file (Utf8.encode cs))
  redirected :
    (rules s libraries).redirected? ((s.directory l).down y.dropLast) (Utf8.encode cs) = some out
  copied : w'.disk.entryAt? ((s.directory l).parts ++ y) = some (.file out)

/-- A specifier of a library is redirected, in a source that has been copied, and names a file of
the library, but nothing in the merged tree. -/
structure Dangles (s : Settings) (w w' : World) (libraries : List Library) (l : Library)
    (sub : Text) : Prop where
  provider : (rules s libraries).layout.provider? (l.name ++ .char '/' :: sub) = some l
  relative : Path.anchorOf sub = .none ∧ (".." : Text) ∉ Path.partsOf sub
  names : ∃ bytes, w.disk.entryAt? (l.root.parts ++ Path.partsOf sub) = some (.file bytes)
  imported : ∃ k y cs out, Imported s w w' libraries (l.name ++ .char '/' :: sub) k y cs out
  dangles : ∀ ending ∈ Layout.moduleEndings,
    w'.disk.entryAt? ((s.directory l).parts ++ Layout.moduleFile sub ending) = none

namespace Sample

theorem ignored_dangles {j : List Record} : Dangles (settings ["u", "lib"])
    ⟨disk 0, []⟩ ⟨disk 10, j⟩ [a, core] a "test/y" where
  provider := rfl
  relative := ⟨rfl, by decide⟩
  names := ⟨_, rfl⟩
  imported := ⟨core, ["y.ts"], importing, redirected, {
    member := List.mem_cons_of_mem _ List.mem_cons_self
    isSource := by decide
    imports := ⟨"import '@s/a/x';\n", "\n", by decide⟩
    source := rfl
    redirected := redirects_importing
    copied := rfl }⟩
  dangles := by
    show ∀ ending ∈ Layout.moduleEndings,
      (disk 10).entryAt? ((["u", "lib", "a"] : Place) ++ Layout.moduleFile "test/y" ending) = none
    decide

theorem buried_dangles {j : List Record} :
    Dangles burying ⟨buried, []⟩ ⟨buriedDisk 9, j⟩ [a, core] a "x" where
  provider := rfl
  relative := ⟨rfl, by decide⟩
  names := ⟨_, rfl⟩
  imported := ⟨core, ["y.ts"], importingFile, redirectedFile, {
    member := List.mem_cons_of_mem _ List.mem_cons_self
    isSource := by decide
    imports := ⟨"", "", by decide⟩
    source := rfl
    redirected := redirects_file
    copied := rfl }⟩
  dangles := by
    show ∀ ending ∈ Layout.moduleEndings,
      (buriedDisk 9).entryAt? ((["p", "a", "a"] : Place) ++ Layout.moduleFile "x" ending) = none
    decide

theorem intruded_dangles {j : List Record} : Dangles heedless ⟨intruded 0, []⟩ ⟨intruded 10, j⟩
    [intruder, a] a "index.js" where
  provider := rfl
  relative := ⟨rfl, by decide⟩
  names := ⟨_, rfl⟩
  imported := ⟨a, ["y.ts"], importingOwn, redirectedOwn, {
    member := List.mem_cons_of_mem _ List.mem_cons_self
    isSource := by decide
    imports := ⟨"", "", by decide⟩
    source := rfl
    redirected := redirects_own
    copied := rfl }⟩
  dangles := by
    show ∀ ending ∈ Layout.moduleEndings,
      (intruded 10).entryAt? ((["u", "lib", "a"] : Place) ++
        Layout.moduleFile "index.js" ending) = none
    decide

theorem isFileTree_buried : buried.IsFileTree :=
  ⟨by decide, Disk.isTree_of_entries (by decide), by decide⟩

theorem isFileTree_intruded : (intruded 0).IsFileTree :=
  ⟨by decide, Disk.isTree_of_entries (by decide), by decide⟩

end Sample

/-- A reference in a copied source dangles when its file is ignored; also when it is kept, but the
library is cleared away with the merged tree, or another library is assembled into its directory. -/
theorem run_dangles :
    (∃ s w, s.IsResolved ∧ w.disk.IsFileTree ∧ ∃ b w', Does (run s) w b w' ∧
      (∀ l ∈ b.libraries, l.shortName.IsPlain) ∧
        ∃ l ∈ b.libraries, ∃ sub, Dangles s w w' b.libraries l sub ∧
        Place.Unrelated s.outputDir.parts l.root.parts) ∧
    (∃ s w, s.IsResolved ∧ w.disk.IsFileTree ∧ ∃ b w', Does (run s) w b w' ∧
      (∀ l ∈ b.libraries, l.shortName.IsPlain) ∧
        ∃ l ∈ b.libraries, ∃ sub, Dangles s w w' b.libraries l sub ∧
        (rules s b.libraries).keeps w.disk l.root.parts (Path.partsOf sub) = true) ∧
    ∃ s w, s.IsResolved ∧ w.disk.IsFileTree ∧ ∃ b w', Does (run s) w b w' ∧
      ∃ l ∈ b.libraries, ∃ sub, Dangles s w w' b.libraries l sub ∧
        Place.Unrelated s.outputDir.parts l.root.parts ∧
        (rules s b.libraries).keeps w.disk l.root.parts (Path.partsOf sub) = true := by
  refine ⟨?_, ?_, ?_⟩
  · obtain ⟨j, hj⟩ := Sample.runs []
    have hs : (Sample.settings ["u", "lib"]).IsResolved := Sample.isResolved_settings (by decide)
    exact ⟨_, _, hs, Sample.isFileTree_disk, _, _, hj, by decide, _, List.mem_cons_self, _,
      Sample.ignored_dangles, by decide⟩
  · obtain ⟨j, hj⟩ := Sample.buried_runs []
    have hkeeps : (rules Sample.burying [Sample.a, Sample.core]).keeps Sample.buried ["p", "a"]
      (Path.partsOf "x") = true := by decide
    exact ⟨_, _, Sample.isResolved_burying, Sample.isFileTree_buried, _, _, hj, by decide, _,
      List.mem_cons_self, _, Sample.buried_dangles, hkeeps⟩
  · obtain ⟨j, hj⟩ := Sample.intruded_runs []
    have hkeeps :
        (rules Sample.heedless [Sample.intruder, Sample.a]).keeps (Sample.intruded 0) ["p", "a"]
          (Path.partsOf "index.js") = true := by decide
    exact ⟨_, _, Sample.isResolved_heedless, Sample.isFileTree_intruded, _, _, hj, _,
      List.mem_cons_of_mem _ List.mem_cons_self, _, Sample.intruded_dangles, by decide, hkeeps⟩

end Build

end UberPackage
