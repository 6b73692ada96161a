/-
  Each directory once.

  A finder goes through the directories below its root with two lists, of the libraries and of what
  it skips (`Finder.discover`), and remembers the second; that is `Discovery.run`
  (`Finder.discover_eq`).  Where all directories can be looked at (`Surveyable`), each of them comes
  into one of the lists, once and in order, and a second run gives the same again:
  `Finder.discover_partitions`.
-/
import UberPackage.Proofs.Discovery

namespace UberPackage.Discovery

open Act Disk

/-! ## The loop -/

/-- Finds libraries below a root, and remembers what it has skipped. -/
structure Finder where
  root : Path
  scope : Text
  skipped : List (Text × SkipReason) := []

/-- What has been found, with one more candidate. -/
def Found.add (found : Found) : Candidate → Found
  | .taken l => { found with libraries := found.libraries ++ [l] }
  | .skipped name reason => { found with skipped := found.skipped ++ [(name, reason)] }

/-- One directory of the loop. -/
def Found.visit (scope : Text) (found : Found) (directory : Path) : Act Found :=
  found.add <$> Discovery.visit scope directory

namespace Finder

/-- The libraries below the root, and the finder afterwards: what it has skipped before is
forgotten. -/
def discover (f : Finder) : Act (List Library × Finder) := do
  Act.record .info stage "Discovering libraries that need packaging..."
  if !(← Act.ask (·.exists? f.root)) then throw (.librariesMissing f.root.text)
  if !(← Act.ask (·.isDirectory? f.root)) then throw (.librariesNotDirectory f.root.text)
  let found ← (← directories f.root).foldlM (Found.visit f.scope) ⟨[], []⟩
  Act.record .info stage ("Found " ++ Text.ofNat found.libraries.length ++ " relevant packages!")
  return (found.libraries, { f with skipped := found.skipped })

end Finder

theorem foldl_add (found : Found) (cs : List Candidate) :
    cs.foldl Found.add found = ⟨found.libraries ++ libraries cs, found.skipped ++ skipped cs⟩ := by
  induction cs generalizing found with
  | nil => simp [libraries, skipped]
  | cons c cs ih =>
    rw [List.foldl_cons, ih]
    cases c with
    | taken l => simp [Found.add, libraries, skipped]
    | skipped name reason => simp [Found.add, libraries, skipped]

theorem foldlM_visit (scope : Text) (found : Found) (ps : List Path) :
    ps.foldlM (Found.visit scope) found = (fun cs => cs.foldl Found.add found) <$>
      ps.mapM (visit scope) := by
  induction ps generalizing found with
  | nil => simp
  | cons p ps ih => simp [Found.visit, ih]

/-- What a finder does is what discovery does. -/
theorem Finder.discover_eq (f : Finder) :
    f.discover = (fun found => (found.libraries, { f with skipped := found.skipped })) <$>
      run f.root f.scope := by
  unfold discover run
  simp only [map_bind, foldlM_visit, foldl_add, bind_map_left, List.nil_append, map_pure,
    apply_ite (Functor.map _)]

/-! ## One directory -/

/-- A directory has a manifest that neither says private nor deprecated, and has settings for
bindings. -/
def TakesPart (d : Disk) (directory : Path) : Prop :=
  ∃ fields : Fields, Holds d (directory / manifestName) (.obj fields) ∧
    (∀ v, fields.get? "private" = some v → v.truthy = false) ∧
    (∀ v, fields.get? "deprecated" = some v → v.truthy = false) ∧
    ∃ v, fields.get? "jsii" = some v ∧ v ≠ .null

/-- A library has a directory, its manifest is the one in there, and its short name is made of its
name. -/
structure IsLibrary (d : Disk) (scope : Text) (directory : Path) (l : Library) : Prop where
  root : l.root = directory
  manifest : Holds d (directory / manifestName) (.obj l.manifest.fields)
  shortName : l.shortName = UberPackage.shortName l.name scope

/-- What is noted of a directory that is skipped: its name, or the one in its manifest, and the
reason. -/
inductive IsSkipped (d : Disk) (directory : Path) : Text × SkipReason → Prop where
  | missing (isFile : d.isFile? (directory / manifestName) = .ok false) :
      IsSkipped d directory (directory.name, .noManifest)
  | manifest {m : Manifest} {reason : SkipReason}
      (holds : Holds d (directory / manifestName) (.obj m.fields))
      (why : m.skipReason? = some reason) :
      IsSkipped d directory (if m.name = [] then directory.name else m.name, reason)

theorem flag_eq_false {m : Manifest} {key : Text} :
    m.flag key = false ↔ ∀ v, m.fields.get? key = some v → v.truthy = false := by
  rw [Manifest.flag, Manifest.get?]
  cases m.fields.get? key with
  | none => simp
  | some v => simp

theorem isNone_jsii? {m : Manifest} :
    m.jsii?.isNone = false ↔ ∃ v, m.fields.get? "jsii" = some v ∧ v ≠ .null := by
  rw [Manifest.jsii?, Manifest.present?, Manifest.get?]
  split
  · next hnull => simp [hnull]
  · next hnull =>
    cases hv : m.fields.get? "jsii" with
    | none => simp
    | some v => exact iff_of_true rfl ⟨v, rfl, fun hn => hnull (hn ▸ hv)⟩

theorem skipReason?_eq_none {m : Manifest} :
    m.skipReason? = none ↔ (∀ v, m.fields.get? "private" = some v → v.truthy = false) ∧
      (∀ v, m.fields.get? "deprecated" = some v → v.truthy = false) ∧
      ∃ v, m.fields.get? "jsii" = some v ∧ v ≠ .null := by
  rw [← flag_eq_false, ← flag_eq_false, ← isNone_jsii?, Manifest.skipReason?, Manifest.isPrivate,
    Manifest.isDeprecated]
  cases m.flag "private" <;> cases m.flag "deprecated" <;> cases m.jsii?.isNone <;> simp

variable {d : Disk} {scope : Text} {directory : Path}

theorem fields_of_ofJson {v : Json} {m : Manifest} (h : Manifest.ofJson v = .ok m) :
    v = .obj m.fields := by
  obtain ⟨fs, hfs, rfl⟩ := except_map_eq_ok.mp h
  cases v with
  | obj fields => rw [← Except.ok.inj hfs]
  | _ => cases hfs

theorem Examines.of_taken {l : Library} (h : Examines d scope directory (.taken l)) :
    IsLibrary d scope directory l ∧ TakesPart d directory := by
  generalize hc : Candidate.taken l = c at h
  cases h with
  | missing _ => cases hc
  | @manifest v m hisFile hholds hfits =>
    rw [fields_of_ofJson hfits] at hholds
    rw [ofManifest] at hc
    split at hc
    · cases hc
    · next hnone =>
      cases hc
      exact ⟨⟨rfl, hholds, rfl⟩, m.fields, hholds, skipReason?_eq_none.mp hnone⟩

theorem Examines.of_skipped {s : Text × SkipReason}
    (h : Examines d scope directory (.skipped s.1 s.2)) :
    IsSkipped d directory s ∧ ¬ TakesPart d directory := by
  obtain ⟨name, reason⟩ := s
  generalize hc : Candidate.skipped name reason = c at h
  cases h with
  | missing hisFile =>
    cases hc
    refine ⟨.missing hisFile, fun ⟨_, hholds, _⟩ => ?_⟩
    rw [isFile?_of_holds hholds] at hisFile
    cases hisFile
  | @manifest v m hisFile hholds hfits =>
    rw [fields_of_ofJson hfits] at hholds
    rw [ofManifest] at hc
    split at hc
    · next reason' hreason =>
      cases hc
      refine ⟨.manifest hholds hreason, fun ⟨fields, hholds', htakes⟩ => ?_⟩
      cases holds_unique hholds hholds'
      rw [skipReason?_eq_none.mpr htakes] at hreason
      cases hreason
    · cases hc

/-! ## All directories -/

/-- Candidates come into two lists, in their order. -/
theorem exists_partition {α : Type} {R : α → Candidate → Prop} {l : List α} {cs : List Candidate}
    (h : List.Forall₂ R l cs) :
      ∃ taken left, taken.Sublist l ∧ left.Sublist l ∧ (∀ a ∈ l, a ∈ taken ∨ a ∈ left) ∧
      List.Forall₂ (fun a library => R a (.taken library)) taken (libraries cs) ∧
      List.Forall₂ (fun a s => R a (.skipped s.1 s.2)) left (skipped cs) := by
  induction h with
  | nil => exact ⟨[], [], .slnil, .slnil, fun _ h => absurd h List.not_mem_nil, .nil, .nil⟩
  | @cons a c l cs hc _ ih =>
    obtain ⟨taken, left, htaken, hleft, hall, hlibraries, hskipped⟩ := ih
    cases c with
    | taken library =>
      refine ⟨a :: taken, left, htaken.cons_cons a, hleft.cons a,
        fun b hb => ?_, .cons hc hlibraries, hskipped⟩
      rcases List.mem_cons.mp hb with rfl | hb
      · exact Or.inl List.mem_cons_self
      · exact (hall b hb).imp_left (List.mem_cons_of_mem _)
    | skipped name reason =>
      refine ⟨taken, a :: left, htaken.cons a, hleft.cons_cons a,
        fun b hb => ?_, hlibraries, .cons hc hskipped⟩
      rcases List.mem_cons.mp hb with rfl | hb
      · exact Or.inr List.mem_cons_self
      · exact (hall b hb).imp_right (List.mem_cons_of_mem _)

/-- The names of the directories below a root, in order. -/
def directoryNames (d : Disk) (root : Path) : List Text :=
  (d.namesIn (d.placeOf root)).filter fun n => d.entryAt? (d.placeOf root ++ [n]) == some .dir

theorem mem_directoryNames {root : Path} {n : Text} :
    n ∈ directoryNames d root ↔ d.entryAt? (d.placeOf root ++ [n]) = some .dir := by
  rw [directoryNames, List.mem_filter, mem_namesIn, beq_iff_eq]
  exact and_iff_right_of_imp fun hn => by rw [hn]; rfl

theorem ascending_directoryNames (h : d.Distinct) (root : Path) :
    (directoryNames d root).Pairwise fun m n => Text.lt m n = true :=
  (ascending_namesIn h (d.placeOf root)).filter _

/-- The root is a directory, the paths below it are not too long to be asked for, and the manifests
in its directories are objects. -/
structure Surveyable (d : Disk) (root : Path) : Prop where
  tree : d.IsFileTree
  isDirectory? : d.isDirectory? root = .ok true
  answers : ∀ n, (d.entryAt? (d.placeOf root ++ [n])).isSome = true →
  ∃ b, d.isDirectory? (root / n) = .ok b
  manifests : ∀ n, d.entryAt? (d.placeOf root ++ [n]) = some .dir →
    d.isFile? (root / n / manifestName) = .ok false ∨
    ∃ fields, Holds d (root / n / manifestName) (.obj fields)

namespace Surveyable

variable {root : Path}

theorem list_eq (h : Surveyable d root) : d.list root = .ok (d.namesIn (d.placeOf root)) := by
  obtain ⟨hlocate, hdir⟩ := locate_of_isDirectory? h.isDirectory?
  rw [list, hlocate, except_ok_bind, hdir]
  rfl

theorem exists?_eq (h : Surveyable d root) : d.exists? root = .ok true := by
  obtain ⟨hlocate, hdir⟩ := locate_of_isDirectory? h.isDirectory?
  refine exists?_of_stat (e := .dir) ?_
  rw [stat, hlocate, except_ok_bind, hdir]
  rfl

/-- The system takes for directories what are directories. -/
theorem isDirectory?_eq (h : Surveyable d root) {n : Text}
    (hn : (d.entryAt? (d.placeOf root ++ [n])).isSome = true) :
    d.isDirectory? (root / n) = .ok (d.entryAt? (d.placeOf root ++ [n]) == some .dir) := by
  obtain ⟨hlocate, hdir⟩ := locate_of_isDirectory? h.isDirectory?
  obtain ⟨hname, hleads, -⟩ := locate_eq_ok.mp hlocate
  have hfile := h.tree.fileName hn
  obtain ⟨b, hb⟩ := h.answers n hn
  obtain ⟨e, he, rfl⟩ := isDirectory?_eq_ok hb
  have hentry : e = d.entryAt? (d.placeOf root ++ [n]) := by
    rw [Path.append_fileName hfile] at he
    have hdown :=
      probe_down hleads (Path.hasNameUnits_of_nameFault? hname) (h.tree.isTree _) (x := [])
        (by rw [List.append_nil, hdir]) hfile he
    rwa [List.append_nil] at hdown
  rw [hb, hentry]

theorem examines (h : Surveyable d root) (scope : Text) {n : Text}
    (hn : d.entryAt? (d.placeOf root ++ [n]) = some .dir) : ∃ c, Examines d scope (root / n) c := by
  rcases h.manifests n hn with hmissing | ⟨fields, hholds⟩
  · exact ⟨_, .missing hmissing⟩
  · exact ⟨_, .manifest (isFile?_of_holds hholds) hholds rfl⟩

/-- There is something to find: a candidate for each directory. -/
theorem exists_finds (h : Surveyable d root) (scope : Text) :
    ∃ cs, List.Forall₂ (fun n c => Examines d scope (root / n) c) (directoryNames d root) cs ∧
      Finds d root scope ⟨libraries cs, skipped cs⟩ := by
  let such : Path → Bool := fun p => (d.isDirectory? p).toOption.getD false
  have hsuch : ∀ n ∈ d.namesIn (d.placeOf root), such (root / n) =
      (d.entryAt? (d.placeOf root ++ [n]) == some .dir) := fun n hn => by
    show (d.isDirectory? (root / n)).toOption.getD false = _
    rw [h.isDirectory?_eq (mem_namesIn.mp hn)]
    rfl
  obtain ⟨cs, hcs⟩ := exists_forall₂_iff.mpr fun n hn => h.examines scope (mem_directoryNames.mp hn)
  refine ⟨cs, hcs, h.exists?_eq, h.isDirectory?, _, such, cs, h.list_eq, fun p hp => ?_, ?_, rfl⟩
  · obtain ⟨n, hn, rfl⟩ := List.mem_map.mp hp
    rw [h.isDirectory?_eq (mem_namesIn.mp hn), hsuch n hn]
  · have hfilter : (d.namesIn (d.placeOf root)).filter (such ∘ fun name => root / name) =
        directoryNames d root :=
      List.filter_congr hsuch
    rw [List.filter_map, List.forall₂_map_left_iff, hfilter]
    exact hcs

end Surveyable

/-- **Each directory below the root comes once into one list**, that of the libraries exactly if it
takes part, and both lists are in the strict order of the directories' names; nothing else does,
whatever the finder has skipped before.  These are the lists that `Discovery.run` gives, and the
finder afterwards gives them again. -/
theorem Finder.discover_partitions (f : Finder) (h : Surveyable d f.root) :
    ∃ libraries skipped, Gives f.discover d (libraries, { f with skipped := skipped }) d ∧
      Gives (Finder.discover { f with skipped := skipped }) d
        (libraries, { f with skipped := skipped }) d ∧
      Gives (run f.root f.scope) d ⟨libraries, skipped⟩ d ∧
      ∃ taken left : List Text,
        (taken.Pairwise fun m n => Text.lt m n = true) ∧
        (left.Pairwise fun m n => Text.lt m n = true) ∧
        (∀ n, n ∈ taken ↔ d.entryAt? (d.placeOf f.root ++ [n]) = some .dir ∧
          TakesPart d (f.root / n)) ∧
        (∀ n, n ∈ left ↔ d.entryAt? (d.placeOf f.root ++ [n]) = some .dir ∧
          ¬ TakesPart d (f.root / n)) ∧
        List.Forall₂ (fun n l => IsLibrary d f.scope (f.root / n) l) taken libraries ∧
        List.Forall₂ (fun n s => IsSkipped d (f.root / n) s) left skipped := by
  obtain ⟨cs, hcs, hfinds⟩ := h.exists_finds f.scope
  have hgives : ∀ before, Gives (discover { f with skipped := before }) d
      (libraries cs, { f with skipped := Discovery.skipped cs }) d := fun before => by
    rw [discover_eq, map_eq_pure_bind]
    exact (gives_run hfinds).bind gives_pure
  obtain ⟨taken, left, htaken, hleft, hall, hlibraries, hskipped⟩ := exists_partition hcs
  have hascending := ascending_directoryNames h.tree.distinct f.root
  have htakes : ∀ n ∈ taken, TakesPart d (f.root / n) := fun n hn => by
    obtain ⟨l, hl⟩ := exists_forall₂_iff.mp ⟨_, hlibraries⟩ n hn
    exact hl.of_taken.2
  have hskips : ∀ n ∈ left, ¬ TakesPart d (f.root / n) := fun n hn => by
    obtain ⟨s, hs⟩ := exists_forall₂_iff.mp ⟨_, hskipped⟩ n hn
    exact hs.of_skipped.2
  refine ⟨libraries cs, Discovery.skipped cs, hgives f.skipped, hgives _,
    gives_run hfinds, taken, left,
    hascending.sublist htaken, hascending.sublist hleft,
    fun n => ⟨fun hn => ?_, fun ⟨hn, ht⟩ => ?_⟩,
    fun n => ⟨fun hn => ?_, fun ⟨hn, ht⟩ => ?_⟩, hlibraries.imp fun _ _ hl => hl.of_taken.1,
    hskipped.imp fun _ _ hs => hs.of_skipped.1⟩
  · exact ⟨mem_directoryNames.mp (htaken.subset hn), htakes n hn⟩
  · exact (hall n (mem_directoryNames.mpr hn)).resolve_right fun hn' => hskips n hn' ht
  · exact ⟨mem_directoryNames.mp (hleft.subset hn), hskips n hn⟩
  · exact (hall n (mem_directoryNames.mpr hn)).resolve_left fun hn' => ht (htakes n hn')

namespace Finder.Sample

/-- A library, a package without settings for bindings, a directory without a manifest, and a
file. -/
def disk : Disk :=
  ⟨[(["r"], .dir),
    (["r", "p"], .dir), (["r", "p", "package.json"], .file (Utf8.encode "\x7b\x7d".toList)),
    (["r", "l"], .dir), (["r", "l", "package.json"],
      .file (Utf8.encode "\x7b\"jsii\":\x7b\x7d\x7d".toList)),
    (["r", "e"], .dir), (["r", "f"], .file [])], [], "t"⟩

/-- A finder that has skipped something before. -/
def finder : Finder := ⟨⟨.slash, ["r"]⟩, "", [("e", .noManifest)]⟩

theorem names {n : Text} (h : (disk.entryAt? (disk.placeOf finder.root ++ [n])).isSome = true) :
    n = "p" ∨ n = "l" ∨ n = "e" ∨ n = "f" := by
  have hkey : [Text.ofString "r", n] ∈ disk.entries.map Prod.fst :=
    mem_keys_iff.mpr (by rwa [← entryAt?_of_ne (List.cons_ne_nil _ _)])
  simpa [disk] using hkey

theorem holds_plain : Holds disk (finder.root / ("p" : Text) / manifestName) (.obj []) :=
  ⟨_, _, rfl, rfl, rfl⟩

theorem holds_library : Holds disk (finder.root / ("l" : Text) / manifestName)
    (.obj [("jsii", .obj [])]) :=
  ⟨_, _, rfl, rfl, rfl⟩

theorem surveyable : Surveyable disk finder.root where
  tree := ⟨by decide, isTree_of_entries (by decide), by decide⟩
  isDirectory? := rfl
  answers n hn := by
    rcases names hn with rfl | rfl | rfl | rfl
    · exact ⟨true, rfl⟩
    · exact ⟨true, rfl⟩
    · exact ⟨true, rfl⟩
    · exact ⟨false, rfl⟩
  manifests n hn := by
    rcases names (by rw [hn]; rfl) with rfl | rfl | rfl | rfl
    · exact Or.inr ⟨_, holds_plain⟩
    · exact Or.inr ⟨_, holds_library⟩
    · exact Or.inl rfl
    · cases hn

end Finder.Sample

open Finder.Sample in
theorem Finder.discover_partitions_sample : Surveyable disk finder.root ∧
    ∃ libraries skipped, Gives finder.discover disk
      (libraries, { finder with skipped := skipped }) disk ∧
      Gives (run finder.root finder.scope) disk ⟨libraries, skipped⟩ disk ∧
      ∃ taken left : List Text, taken.length = libraries.length ∧ left.length = skipped.length ∧
        Text.ofString "l" ∈ taken ∧ Text.ofString "p" ∈ left ∧ Text.ofString "e" ∈ left ∧
        Text.ofString "f" ∉ taken ∧ Text.ofString "f" ∉ left := by
  obtain ⟨libraries, skipped, hgives, -, hrun, taken, left, -, -, htaken, hleft,
      hlibraries, hskipped⟩ :=
    discover_partitions finder surveyable
  refine ⟨surveyable, libraries, skipped, hgives, hrun, taken, left, hlibraries.length_eq,
    hskipped.length_eq,
    (htaken _).mpr ⟨rfl, ?_⟩, (hleft _).mpr ⟨rfl, ?_⟩, (hleft _).mpr ⟨rfl, ?_⟩,
    fun hf => ?_, fun hf => ?_⟩
  · exact ⟨_, holds_library, nofun, nofun, .obj [], rfl, nofun⟩
  · rintro ⟨fields, hholds, -, -, v, hv, -⟩
    cases holds_unique holds_plain hholds
    cases hv
  · rintro ⟨fields, hholds, -⟩
    have hmissing : disk.isFile? (finder.root / ("e" : Text) / manifestName) = .ok false := rfl
    cases hmissing.symm.trans (isFile?_of_holds hholds)
  · cases ((htaken _).mp hf).1
  · cases ((hleft _).mp hf).1

end UberPackage.Discovery
