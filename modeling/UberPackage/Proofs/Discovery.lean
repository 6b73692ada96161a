/-
  What discovery finds.

  There is something to find below a root (`Discovery.Finds`) when its directories, in order of
  name, can all be examined.  Discovery finds just that and changes nothing (`Discovery.run_does`,
  `Discovery.gives_run`).

  On a file tree, a name in the root stands for a library or for none (`Discovery.libraryAt?`), and
  those are the libraries that are found (`Finds.libraries_eq`).
-/
import UberPackage.Discovery
import UberPackage.Proofs.Act.Failure
import UberPackage.Proofs.Disk.Tree

namespace UberPackage.Discovery

open Act Disk

/-! ## Candidates -/

/-- The library that a candidate is. -/
def Candidate.taken? : Candidate → Option Library
  | .taken l => some l
  | .skipped _ _ => none

theorem libraries_eq (cs : List Candidate) : libraries cs = cs.filterMap Candidate.taken? := rfl

/-- A directory holds a candidate. -/
inductive Examines (d : Disk) (scope : Text) (directory : Path) : Candidate → Prop where
  | manifest {v : Json} {m : Manifest} (isFile : d.isFile? (directory / manifestName) = .ok true)
      (holds : Holds d (directory / manifestName) v) (fits : Manifest.ofJson v = .ok m) :
      Examines d scope directory (ofManifest directory scope m)
  | missing (isFile : d.isFile? (directory / manifestName) = .ok false) :
      Examines d scope directory (.skipped directory.name .noManifest)

section Examine

variable {scope : Text} {directory : Path} {c : Candidate} {w w' : World}

theorem examine_does :
    Does (examine scope directory) w c w' ↔ Examines w.disk scope directory c ∧ w = w' := by
  unfold examine
  dsimp only
  rw [does_bind]
  constructor
  · rintro ⟨b, v, hb, h⟩
    obtain ⟨hisFile, rfl⟩ := does_ask.mp hb
    cases b with
    | false =>
      obtain ⟨rfl, rfl⟩ := does_pure.mp h
      exact ⟨.missing hisFile, rfl⟩
    | true =>
      rw [if_pos rfl] at h
      obtain ⟨v, u, hread, h⟩ := does_bind.mp h
      obtain ⟨hholds, rfl⟩ := does_readDocument.mp hread
      obtain ⟨m, u, hgives, h⟩ := does_bind.mp h
      obtain ⟨hfits, rfl⟩ := does_orFail.mp hgives
      obtain ⟨rfl, rfl⟩ := does_pure.mp h
      exact ⟨.manifest hisFile hholds hfits, rfl⟩
  · rintro ⟨h, rfl⟩
    cases h with
    | @manifest v m hisFile hholds hfits =>
      refine ⟨true, w, does_ask.mpr ⟨hisFile, rfl⟩, ?_⟩
      rw [if_pos rfl]
      refine does_bind.mpr ⟨v, w, does_readDocument.mpr ⟨hholds, rfl⟩, ?_⟩
      exact does_bind.mpr ⟨m, w, does_orFail.mpr ⟨hfits, rfl⟩, does_pure.mpr ⟨rfl, rfl⟩⟩
    | missing hisFile =>
      exact ⟨false, w, does_ask.mpr ⟨hisFile, rfl⟩, does_pure.mpr ⟨rfl, rfl⟩⟩

theorem visit_does (h : Does (visit scope directory) w c w') :
    w'.disk = w.disk ∧ Examines w.disk scope directory c := by
  unfold visit at h
  obtain ⟨c', v, hexamine, h⟩ := does_bind.mp h
  obtain ⟨hc, rfl⟩ := examine_does.mp hexamine
  obtain ⟨_, u, hreport, h⟩ := does_bind.mp h
  obtain ⟨rfl, rfl⟩ := does_pure.mp h
  refine ⟨?_, hc⟩
  cases c' with
  | taken l => rw [← (does_pure.mp hreport).2]
  | skipped name reason => rw [← does_records.mp hreport]

theorem gives_visit {d : Disk} (h : Examines d scope directory c) :
    Gives (visit scope directory) d c d := by
  refine Gives.bind (x := c) (fun j => ⟨j, examine_does.mpr ⟨h, rfl⟩⟩) ?_
  refine Gives.bind (x := ()) ?_ gives_pure
  cases c with
  | taken l => exact gives_pure
  | skipped name reason => exact gives_records _

end Examine

/-! ## Below a root -/

/-- What there is to find below a root. -/
structure Finds (d : Disk) (root : Path) (scope : Text) (found : Found) : Prop where
  exists? : d.exists? root = .ok true
  isDirectory? : d.isDirectory? root = .ok true
  candidates : ∃ names such cs, d.list root = .ok names ∧
    (∀ p ∈ names.map fun name => root / name, d.isDirectory? p = .ok (such p)) ∧
    List.Forall₂ (Examines d scope) ((names.map fun name => root / name).filter such) cs ∧
    found = ⟨libraries cs, skipped cs⟩

variable {root : Path} {scope : Text} {found : Found}

theorem directories_does {w w' : World} {ps : List Path} (h : Does (directories root) w ps w') :
    w = w' ∧ ∃ names such, w.disk.list root = .ok names ∧
      (∀ p ∈ names.map fun name => root / name, w.disk.isDirectory? p = .ok (such p)) ∧
      ps = (names.map fun name => root / name).filter such := by
  unfold directories at h
  obtain ⟨names, v, hlist, h⟩ := does_bind.mp h
  obtain ⟨hnames, rfl⟩ := does_ask.mp hlist
  obtain ⟨hw, such, hsuch, hps⟩ := does_filterM_ask.mp h
  exact ⟨hw, names, such, hnames, hsuch, hps⟩

theorem gives_directories {d : Disk} {names : List Text} {such : Path → Bool}
    (hlist : d.list root = .ok names)
    (hsuch : ∀ p ∈ names.map fun name => root / name, d.isDirectory? p = .ok (such p)) :
    Gives (directories root) d ((names.map fun name => root / name).filter such) d := by
  have hfilter :
      Gives ((names.map fun name => root / name).filterM fun p => ask (·.isDirectory? p)) d
        ((names.map fun name => root / name).filter such) d := gives_filterM_ask hsuch
  exact (gives_ask hlist).bind hfilter

/-- Discovery finds what there is to find and changes nothing. -/
theorem run_does {w w' : World} (h : Does (run root scope) w found w') :
    w'.disk = w.disk ∧ Finds w.disk root scope found := by
  unfold run at h
  dsimp only at h
  obtain ⟨_, v, hrecord, h⟩ := does_bind.mp h
  have hv : v.disk = w.disk := by rw [← does_records.mp hrecord]
  obtain ⟨b, u, hasked, h⟩ := does_bind.mp h
  obtain ⟨hexists, rfl⟩ := does_ask.mp hasked
  cases b with
  | false =>
    rw [Bool.not_false, if_pos rfl] at h
    obtain ⟨_, _, hthrow, -⟩ := does_bind.mp h
    exact absurd hthrow does_throw
  | true =>
    rw [Bool.not_true, if_neg Bool.false_ne_true] at h
    obtain ⟨b, u, hasked', h⟩ := does_bind.mp h
    obtain ⟨hdirectory, rfl⟩ := does_ask.mp hasked'
    cases b with
    | false =>
      rw [Bool.not_false, if_pos rfl] at h
      obtain ⟨_, _, hthrow, -⟩ := does_bind.mp h
      exact absurd hthrow does_throw
    | true =>
      rw [Bool.not_true, if_neg Bool.false_ne_true] at h
      obtain ⟨ps, u, hps, h⟩ := does_bind.mp h
      obtain ⟨rfl, names, such, hlist, hsuch, rfl⟩ := directories_does hps
      obtain ⟨cs, u', hcs, h⟩ := does_bind.mp h
      obtain ⟨hu', hall⟩ := forall₂_of_does_mapM (P := fun d p c => Examines d scope p c)
        (fun p _ _ _ _ hp => visit_does hp) hcs
      obtain ⟨_, u'', hrecord', h⟩ := does_bind.mp h
      obtain ⟨rfl, rfl⟩ := does_pure.mp h
      rw [hv] at hexists hdirectory hlist hsuch hall hu'
      refine ⟨?_, hexists, hdirectory, names, such, cs, hlist, hsuch, hall, rfl⟩
      rw [← hu', ← does_records.mp hrecord']

/-- What there is to find, discovery finds. -/
theorem gives_run {d : Disk} (h : Finds d root scope found) : Gives (run root scope) d found d := by
  obtain ⟨names, such, cs, hlist, hsuch, hall, rfl⟩ := h.candidates
  unfold run
  dsimp only
  refine (gives_records _).bind ((gives_ask h.exists?).bind ?_)
  rw [Bool.not_true, if_neg Bool.false_ne_true]
  refine (gives_ask h.isDirectory?).bind ?_
  rw [Bool.not_true, if_neg Bool.false_ne_true]
  refine (gives_directories hlist hsuch).bind ?_
  refine (gives_mapM (hall.imp fun p c hc => gives_visit hc)).bind ?_
  exact (gives_records _).bind gives_pure

/-! ## Manifests that are no documents -/

section Garbled

variable {d : Disk} {f : Failure}

theorem breaks_visit {directory : Path} (h : Garbled d (directory / manifestName) f) :
    Breaks (visit scope directory) d f := by
  have hfile : d.isFile? (directory / manifestName) = .ok true := by
    cases h with
    | bytes hread _ => exact Disk.isFile?_of_read hread
    | text hread _ _ => exact Disk.isFile?_of_read hread
  refine Breaks.bind ((gives_ask hfile).breaks ?_) _
  rw [if_pos rfl]
  exact h.breaks.bind _

/-- The first of the directories below a root that cannot be examined has a manifest that is no
document. -/
structure Meets (d : Disk) (root : Path) (scope : Text) (f : Failure) : Prop where
  exists? : d.exists? root = .ok true
  isDirectory? : d.isDirectory? root = .ok true
  garbled : ∃ names such before directory after cs, d.list root = .ok names ∧
    (∀ p ∈ names.map fun name => root / name, d.isDirectory? p = .ok (such p)) ∧
    (names.map fun name => root / name).filter such = before ++ directory :: after ∧
    List.Forall₂ (Examines d scope) before cs ∧ Garbled d (directory / manifestName) f

/-- A manifest that is no document is all that discovery finds. -/
theorem Meets.breaks (h : Meets d root scope f) : Breaks (run root scope) d f := by
  obtain ⟨names, such, before, directory, after, cs, hlist, hsuch, hsplit, hbefore, hgarbled⟩ :=
    h.garbled
  have hvisits : Breaks ((before ++ directory :: after).mapM (visit scope)) d f :=
    breaks_mapM (hbefore.imp fun p c hc => gives_visit hc) (breaks_visit hgarbled)
  unfold run
  refine (gives_records _).breaks ((gives_ask h.exists?).breaks ?_)
  rw [Bool.not_true, if_neg Bool.false_ne_true]
  refine (gives_ask h.isDirectory?).breaks ?_
  rw [Bool.not_true, if_neg Bool.false_ne_true]
  exact (hsplit ▸ gives_directories hlist hsuch).breaks (hvisits.bind _)

end Garbled

/-! ## On a file tree -/

/-- The library that a directory holds, if it holds one. -/
def libraryIn? (d : Disk) (scope : Text) (directory : Path) : Option Library :=
  match d.entryAt? (directory.parts ++ [manifestName]) with
  | some (.file bytes) => do
    let cs ← Utf8.decode? bytes
    let v ← (Json.read (Text.ofChars cs).plainLines).toOption
    let m ← (Manifest.ofJson v).toOption
    (ofManifest directory scope m).taken?
  | _ => none

/-- The library that a name in a root stands for, if it stands for one. -/
def libraryAt? (d : Disk) (root : Path) (scope name : Text) : Option Library :=
  if d.entryAt? (root.parts ++ [name]) = some .dir then libraryIn? d scope
    (root.down [name]) else none

variable {d : Disk}

theorem isResolved_manifest {p : Path} (hp : p.IsResolved) : (p / manifestName).IsResolved :=
  hp.child (by decide)

theorem parts_manifest (p : Path) : (p / manifestName).parts = p.parts ++ [manifestName] :=
  Path.parts_child (by decide) p

theorem isFile?_of_holds {p : Path} {v : Json} (h : Holds d p v) : d.isFile? p = .ok true := by
  obtain ⟨bytes, _, hread, -⟩ := h
  exact isFile?_of_read hread

/-- A file holds one document. -/
theorem holds_unique {p : Path} {v v' : Json} (h : Holds d p v) (h' : Holds d p v') : v = v' := by
  obtain ⟨bytes, cs, hread, hdecode, hjson⟩ := h
  obtain ⟨bytes', cs', hread', hdecode', hjson'⟩ := h'
  obtain rfl := Except.ok.inj (hread.symm.trans hread')
  obtain rfl := Option.some.inj (hdecode.symm.trans hdecode')
  exact Except.ok.inj (hjson.symm.trans hjson')

/-- File trees that have the same file for a document hold the same document. -/
theorem holds_again {e : Disk} {p : Path} {v : Json} (h : Holds d p v) (hd : d.IsFileTree)
    (he : e.IsFileTree) (hp : p.IsResolved) (hsame : e.entryAt? p.parts = d.entryAt? p.parts) :
    Holds e p v := by
  obtain ⟨bytes, cs, hread, hdecode, hjson⟩ := h
  have hentry := read_resolved hp hread
  refine ⟨bytes, cs, ?_, hdecode, hjson⟩
  rw [(hd.sameAlong he (by rw [hentry]; rfl) hsame).read hp, hread]

namespace Examines

variable {p : Path} {c : Candidate}

/-- A directory that has been examined has a manifest whose path is not too long. -/
theorem nameFault? (h : Examines d scope p c) (hd : d.IsFileTree)
    (hdir : d.entryAt? p.parts = some .dir) : (p / manifestName).nameFault? = none := by
  obtain ⟨e, hprobe⟩ : ∃ e, d.probe (p / manifestName) = .ok e := by
    cases h with
    | manifest hisFile _ _ =>
      rw [isFile?, except_bind_eq_ok] at hisFile
      exact ⟨_, hisFile.choose_spec.1⟩
    | missing hisFile =>
      rw [isFile?, except_bind_eq_ok] at hisFile
      exact ⟨_, hisFile.choose_spec.1⟩
  refine nameFault?_of_probe (fun part hpart => ?_) hprobe
  rw [parts_manifest] at hpart
  rcases List.mem_append.mp hpart with hpart | hpart
  · exact (hd.fileNames (by rw [hdir]; rfl) part hpart).units
  · rw [List.mem_singleton.mp hpart]
    unfold Code.IsNameUnit
    decide

/-- The manifest of a directory that has been examined can be read. -/
theorem ofJson (h : Examines d scope p c) {v : Json} (hv : Holds d (p / manifestName) v) :
    ∃ m, Manifest.ofJson v = .ok m := by
  cases h with
  | manifest _ hholds hfits => exact ⟨_, holds_unique hholds hv ▸ hfits⟩
  | missing hisFile =>
    rw [isFile?_of_holds hv] at hisFile
    cases hisFile

/-- A directory with the same manifest holds the same candidate. -/
theorem again {e : Disk} {bytes : Bytes} (h : Examines d scope p c) (hd : d.IsFileTree)
    (he : e.IsFileTree) (hp : p.IsResolved)
    (hfile : d.entryAt? (p.parts ++ [manifestName]) = some (.file bytes))
    (hsame : e.entryAt? (p.parts ++ [manifestName]) = d.entryAt? (p.parts ++ [manifestName])) :
    Examines e scope p c := by
  cases h with
  | manifest _ hholds hfits =>
    have hholds' := holds_again hholds hd he (isResolved_manifest hp) (by rwa [parts_manifest])
    exact .manifest (isFile?_of_holds hholds') hholds' hfits
  | missing hisFile =>
    rw [isFile?, except_bind_eq_ok] at hisFile
    obtain ⟨e', hprobe, he'⟩ := hisFile
    rw [hd.probe (isResolved_manifest hp) hprobe, parts_manifest, hfile] at he'
    cases he'

end Examines

/-- A manifest tells whether its directory holds a library. -/
theorem libraryIn?_of_holds {p : Path} (hp : p.IsResolved) {v : Json}
    (h : Holds d (p / manifestName) v) :
    libraryIn? d scope p = (Manifest.ofJson v).toOption.bind fun m =>
      (ofManifest p scope m).taken? := by
  obtain ⟨bytes, cs, hread, hdecode, hjson⟩ := h
  have hentry := read_resolved (isResolved_manifest hp) hread
  rw [parts_manifest] at hentry
  have hv : (Json.read (Text.ofChars cs).plainLines).toOption = some v := by rw [hjson]; rfl
  rw [libraryIn?, hentry]
  simp only [Option.bind_eq_bind, hdecode, hv, Option.bind_some]

theorem libraryIn?_of_no_file {p : Path}
    (h : ∀ bytes, d.entryAt? (p.parts ++ [manifestName]) ≠ some (.file bytes)) :
    libraryIn? d scope p = none := by
  rw [libraryIn?]
  split
  · next bytes hentry => exact absurd hentry (h bytes)
  · rfl

theorem taken?_of_examines (hd : d.IsFileTree) {p : Path} (hp : p.IsResolved) {c : Candidate}
    (h : Examines d scope p c) : c.taken? = libraryIn? d scope p := by
  cases h with
  | manifest hisFile hholds hfits =>
    rw [libraryIn?_of_holds hp hholds, hfits]
    rfl
  | missing hisFile =>
    rw [libraryIn?_of_no_file fun bytes hentry => ?_]
    · rfl
    · rw [isFile?, except_bind_eq_ok] at hisFile
      obtain ⟨e, hprobe, he⟩ := hisFile
      rw [hd.probe (isResolved_manifest hp) hprobe, parts_manifest, hentry] at he
      cases he

/-- A library has its directory below the root, with its manifest in it, and its short name is made
of its name. -/
theorem of_libraryAt? {n : Text} {l : Library} (h : libraryAt? d root scope n = some l) :
    l.root = root.down [n] ∧ d.entryAt? l.root.parts = some .dir ∧
      (∃ bytes, d.entryAt? (l.root.parts ++ [manifestName]) = some (.file bytes)) ∧
      l.shortName = shortName l.name scope := by
  rw [libraryAt?] at h
  split at h
  · next hdir =>
    rw [libraryIn?] at h
    split at h
    · next bytes hentry =>
      simp only [Option.bind_eq_bind, Option.bind_eq_some_iff] at h
      obtain ⟨cs, -, v, -, m, -, h⟩ := h
      unfold ofManifest at h
      split at h
      · cases h
      · obtain rfl := Option.some.inj h
        exact ⟨rfl, hdir, ⟨bytes, hentry⟩, rfl⟩
    · cases h
  · cases h

theorem filterMap_taken? (hd : d.IsFileTree) {ps : List Path} {cs : List Candidate}
    (hp : ∀ p ∈ ps, p.IsResolved) (h : List.Forall₂ (Examines d scope) ps cs) :
    cs.filterMap Candidate.taken? = ps.filterMap (libraryIn? d scope) := by
  induction h with
  | nil => rfl
  | @cons p c ps cs hc _ ih =>
    rw [List.filterMap_cons, List.filterMap_cons,
      taken?_of_examines hd (hp p List.mem_cons_self) hc,
      ih fun q hq => hp q (List.mem_cons_of_mem _ hq)]

theorem taken?_eq_none {p : Path} {m : Manifest} : (ofManifest p scope m).taken? = none ↔
    m.skipReason? ≠ none := by
  unfold ofManifest
  split
  · next reason hreason => simp [Candidate.taken?, hreason]
  · next hreason => simp [Candidate.taken?, hreason]

/-- A library that a name stands for is below the root, and its name is listed there. -/
theorem mem_namesIn_of_libraryAt? {n : Text} (h : (libraryAt? d root scope n).isSome = true) :
    n ∈ d.namesIn root.parts := by
  rw [libraryAt?] at h
  split at h
  · next hdir => exact mem_namesIn.mpr (by rw [hdir]; rfl)
  · cases h

/-- When the names in a root stand for the same libraries on two disks, there are the same ones in
all. -/
theorem filterMap_libraryAt?_congr {e : Disk} (hd : d.Distinct) (he : e.Distinct)
    (h : ∀ n, libraryAt? e root scope n = libraryAt? d root scope n) :
    (e.namesIn root.parts).filterMap (libraryAt? e root scope) =
      (d.namesIn root.parts).filterMap (libraryAt? d root scope) := by
  have hfilter : ∀ names : List Text, names.filterMap (libraryAt? d root scope) =
      (names.filter fun n => (libraryAt? d root scope n).isSome).filterMap
        (libraryAt? d root scope) := by
    intro names
    rw [List.filterMap_filter]
    refine List.filterMap_congr fun n _ => ?_
    cases libraryAt? d root scope n <;> rfl
  have hmem : ∀ n, n ∈ (e.namesIn root.parts).filter (fun n => (libraryAt? d root scope n).isSome) ↔
      n ∈ (d.namesIn root.parts).filter fun n => (libraryAt? d root scope n).isSome := by
    intro n
    rw [List.mem_filter, List.mem_filter]
    exact ⟨fun hn => ⟨mem_namesIn_of_libraryAt? hn.2, hn.2⟩,
      fun hn => ⟨mem_namesIn_of_libraryAt? (h n ▸ hn.2), hn.2⟩⟩
  have hperm :=
    (List.perm_ext_iff_of_nodup ((nodup_namesIn he _).filter _)
      ((nodup_namesIn hd _).filter _)).mpr hmem
  have hsame : (e.namesIn root.parts).filter (fun n => (libraryAt? d root scope n).isSome) =
      (d.namesIn root.parts).filter fun n => (libraryAt? d root scope n).isSome :=
    hperm.eq_of_pairwise (fun a b _ _ hab hba => Text.le_antisymm a b hab hba)
      ((Text.sorted_sort _).filter _) ((Text.sorted_sort _).filter _)
  rw [funext h, hfilter, hfilter (d.namesIn root.parts), hsame]

namespace Finds

/-- The libraries that are found are those that the names in the root stand for. -/
theorem libraries_eq (h : Finds d root scope found) (hd : d.IsFileTree) (hr : root.IsResolved) :
    found.libraries = (d.namesIn root.parts).filterMap (libraryAt? d root scope) := by
  obtain ⟨names, such, cs, hlist, hsuch, hall, rfl⟩ := h.candidates
  obtain ⟨-, rfl⟩ := list_resolved hr hlist
  have hpath : ∀ n ∈ d.namesIn root.parts, root / n = root.down [n] ∧ (root / n).IsResolved := by
    intro n hn
    have hname := (hd.fileName (mem_namesIn.mp hn)).isComponent
    exact ⟨Path.append_component hname root, hr.child hname⟩
  have hresolved : ∀ p ∈ (d.namesIn root.parts).map fun name => root / name, p.IsResolved := by
    intro p hp
    obtain ⟨n, hn, rfl⟩ := List.mem_map.mp hp
    exact (hpath n hn).2
  show cs.filterMap Candidate.taken? = _
  rw [filterMap_taken? hd (fun p hp => hresolved p (List.mem_filter.mp hp).1) hall,
    List.filterMap_filter,
    List.filterMap_map]
  refine List.filterMap_congr fun n hn => ?_
  obtain ⟨hn', hn''⟩ := hpath n hn
  have hdir := hd.isDirectory? hn'' (hsuch _ (List.mem_map_of_mem hn))
  rw [hn'] at hdir
  rw [Function.comp_apply, libraryAt?, hn', hdir]
  simp only [beq_iff_eq]
  rfl

/-- Each library that is found has its directory below the root. -/
theorem mem (h : Finds d root scope found) (hd : d.IsFileTree) (hr : root.IsResolved) {l : Library}
    (hl : l ∈ found.libraries) :
    ∃ n, n.IsFileName ∧ l.root = root.down [n] ∧ d.entryAt? l.root.parts = some .dir ∧
      (∃ bytes, d.entryAt? (l.root.parts ++ [manifestName]) = some (.file bytes)) ∧
      l.shortName = shortName l.name scope := by
  rw [h.libraries_eq hd hr] at hl
  obtain ⟨n, hn, hat⟩ := List.mem_filterMap.mp hl
  obtain ⟨hroot, hrest⟩ := of_libraryAt? hat
  exact ⟨n, hd.fileName (mem_namesIn.mp hn), hroot, hrest⟩

/-- The path of what stands below the root is not too long. -/
theorem nameFault? (h : Finds d root scope found) (hd : d.IsFileTree)
    (hr : root.IsResolved) {n : Text} (hn : (d.entryAt? (root.parts ++ [n])).isSome = true) :
    (root.down [n]).nameFault? = none := by
  obtain ⟨names, such, cs, hlist, hsuch, -⟩ := h.candidates
  obtain ⟨-, rfl⟩ := list_resolved hr hlist
  obtain ⟨e, hprobe, -⟩ := isDirectory?_eq_ok (hsuch _ (List.mem_map_of_mem (mem_namesIn.mpr hn)))
  rw [Path.append_component (hd.fileName hn).isComponent] at hprobe
  exact nameFault?_of_probe (fun part hpart => (hd.fileNames hn part hpart).units) hprobe

/-- Each directory below the root can be examined. -/
theorem examines (h : Finds d root scope found) (hd : d.IsFileTree)
    (hr : root.IsResolved) {n : Text} (hdir : d.entryAt? (root.parts ++ [n]) = some .dir) :
    ∃ c, Examines d scope (root.down [n]) c := by
  obtain ⟨names, such, cs, hlist, hsuch, hall, -⟩ := h.candidates
  obtain ⟨-, rfl⟩ := list_resolved hr hlist
  have hsome : (d.entryAt? (root.parts ++ [n])).isSome = true := by rw [hdir]; rfl
  have hcomponent := (hd.fileName hsome).isComponent
  have hmem : root / n ∈ (d.namesIn root.parts).map fun name => root / name :=
    List.mem_map_of_mem (mem_namesIn.mpr hsome)
  have hb := hd.isDirectory? (hr.child hcomponent) (hsuch _ hmem)
  rw [Path.parts_child hcomponent, hdir, beq_self_eq_true] at hb
  rw [← Path.append_component hcomponent]
  exact exists_forall₂_iff.mp ⟨cs, hall⟩ _ (List.mem_filter.mpr ⟨hmem, hb⟩)

/-- There is something to find when all below the root can be looked at. -/
theorem of_examines (hd : d.IsFileTree) (hr : root.IsResolved) (hroot : root.nameFault? = none)
    (hdir : d.entryAt? root.parts = some .dir)
    (hname : ∀ n, (d.entryAt? (root.parts ++ [n])).isSome = true →
      (root.down [n]).nameFault? = none)
    (hall : ∀ n, d.entryAt? (root.parts ++ [n]) = some .dir →
      ∃ c, Examines d scope (root.down [n]) c) :
    ∃ found, Finds d root scope found := by
  have hreaches := hd.reaches (x := root.parts) (by rw [hdir]; rfl)
  have hprobe := probe_of_reaches hr hroot hreaches
  have hlist : d.list root = .ok (d.namesIn root.parts) := by
    rw [list, (locate_resolved hr).mpr ⟨hroot, hreaches, rfl⟩, except_ok_bind, hdir]
    rfl
  have hbelow : ∀ n ∈ d.namesIn root.parts, root / n = root.down [n] ∧
      d.isDirectory? (root / n) = .ok (d.entryAt? (root / n).parts == some .dir) := by
    intro n hn
    have hsome := mem_namesIn.mp hn
    have hcomponent := (hd.fileName hsome).isComponent
    refine ⟨Path.append_component hcomponent root, ?_⟩
    rw [Path.append_component hcomponent]
    have hdown : (root.down [n]).IsResolved :=
      hr.down fun m hm => List.mem_singleton.mp hm ▸ hcomponent
    rw [Disk.isDirectory?, probe_of_reaches hdown (hname n hsome) (hd.reaches hsome)]
    rfl
  obtain ⟨cs, hcs⟩ : ∃ cs, List.Forall₂ (Examines d scope)
      (((d.namesIn root.parts).map fun name => root / name).filter
      fun p => d.entryAt? p.parts == some .dir) cs := by
    refine exists_forall₂_iff.mpr fun p hp => ?_
    obtain ⟨hp, hpdir⟩ := List.mem_filter.mp hp
    obtain ⟨n, hn, rfl⟩ := List.mem_map.mp hp
    rw [(hbelow n hn).1] at hpdir ⊢
    exact hall n (beq_iff_eq.mp hpdir)
  refine ⟨⟨libraries cs, skipped cs⟩, ?_, ?_, _, _, cs, hlist, fun p hp => ?_, hcs, rfl⟩
  · rw [Disk.exists?, hprobe, hdir]
    rfl
  · rw [Disk.isDirectory?, hprobe, hdir]
    rfl
  · obtain ⟨n, hn, rfl⟩ := List.mem_map.mp hp
    exact (hbelow n hn).2

end Finds

end UberPackage.Discovery
