/-
  Libraries of a build, apart from one another.

  Libraries are assembled one after the other, each on what those before it have left
  (`Build.exists_turn`).  Libraries with different short names have no place in common, as long as
  the short names are ordinary parts of paths; so what a build leaves at the places of a library is
  what assembling it has left there (`Build.run_apart`).
-/
import UberPackage.Proofs.Build.Stages

namespace UberPackage

namespace Settings

variable {s : Settings} {l k : Library}

/-- The library has its directory and its shim. -/
structure Standing (s : Settings) (d : Disk) (l : Library) : Prop where
  directory : d.entryAt? (s.directory l).parts = some .dir
  shim : l.shortName ≠ s.rootLibrary → ∃ bytes, d.entryAt? (s.shim l).parts = some (.file bytes)

theorem Standing.grows {d d' : Disk} {inside above : Place → Prop} (h : s.Standing d l)
    (hg : Disk.Grows inside above d d') : s.Standing d' l where
  directory := hg.dir h.directory
  shim hroot := by
    obtain ⟨bytes, hbytes⟩ := h.shim hroot
    exact hg.file hbytes

/-- The directory of a library is below the merged tree. -/
theorem length_directory (hl : l.shortName.IsComponent) :
    (s.directory l).parts.length = s.outputDir.parts.length + 1 := by
  rw [parts_directory hl.isPlain, Path.partsOf_component hl, List.length_append]
  rfl

/-- No place of a directory is on the way to the merged tree. -/
theorem not_prefix_output (hl : l.shortName.IsComponent) {q : Place}
    (hd : (s.directory l).parts <+: q) : ¬ q <+: s.outputDir.parts := by
  intro hq
  have hle := (hd.trans hq).length_le
  rw [length_directory hl] at hle
  omega

/-- A directory is not where a shim is, unless they stand at the same place. -/
theorem directory_eq_shim (hl : l.shortName.IsPlain) (hk : k.shortName.IsPlain)
    (hne : (s.directory l).parts ≠ []) (h : (s.directory l).parts <+: (s.shim k).parts) :
    (s.directory l).parts = (s.shim k).parts := by
  refine h.eq_of_length_le ?_
  have hpos := List.length_pos_iff.mpr hne
  rw [parts_directory hl, List.length_append] at hpos ⊢
  rw [parts_shim hk, List.length_append, List.length_dropLast, List.length_singleton]
  omega

/-- The shim of a library that stands is not in a directory of one. -/
theorem Standing.not_prefix_shim {d : Disk} (hl : l.shortName.IsPlain) (hk : k.shortName.IsPlain)
    (hne : (s.directory l).parts ≠ []) (hstandl : s.Standing d l) (hstandk : s.Standing d k)
    (hroot : k.shortName ≠ s.rootLibrary) : ¬ (s.directory l).parts <+: (s.shim k).parts := by
  intro h
  obtain ⟨bytes, hbytes⟩ := hstandk.shim hroot
  have hdir := hstandl.directory
  rw [directory_eq_shim hl hk hne h, hbytes] at hdir
  cases hdir

/-- Libraries that stand under different short names have no place in common. -/
theorem Footprint.disjoint {d : Disk} (hl : l.shortName.IsComponent) (hk : k.shortName.IsComponent)
    (hne : l.shortName ≠ k.shortName) (hstandl : s.Standing d l)
    (hstandk : s.Standing d k) (q : Place) : ¬ (s.Footprint l q ∧ s.Footprint k q) := by
  have hne' : ∀ {m : Library}, m.shortName.IsComponent → (s.directory m).parts ≠ [] := fun hm =>
    List.ne_nil_of_length_pos (by rw [length_directory hm]; omega)
  rintro ⟨hql | ⟨hrootl, hql⟩, hqk | ⟨hrootk, hqk⟩⟩
  · have hboth := (List.prefix_of_prefix_length_le hql hqk
      (by rw [length_directory hl, length_directory hk])).eq_of_length
      (by rw [length_directory hl, length_directory hk])
    rw [parts_directory hl.isPlain, parts_directory hk.isPlain, Path.partsOf_component hl,
      Path.partsOf_component hk] at hboth
    exact hne (List.cons.inj (List.append_cancel_left hboth)).1
  · exact hstandl.not_prefix_shim hl.isPlain hk.isPlain (hne' hl) hstandk hrootk (hqk ▸ hql)
  · exact hstandk.not_prefix_shim hk.isPlain hl.isPlain (hne' hk) hstandl hrootl (hql ▸ hqk)
  · rw [hql, parts_shim hl.isPlain, parts_shim hk.isPlain] at hqk
    exact hne (List.append_cancel_right (List.cons.inj (List.append_cancel_left hqk)).1)

end Settings

namespace Build

open Act Disk

variable {s : Settings} {libraries : List Library} {uber : Option Json}

/-- What assembling a library leaves. -/
theorem standing_of_assemble (hs : s.IsResolved) {l : Library} (hl : l.shortName.IsPlain)
    {v v' : World} {c : Counts} (hv : v.disk.IsFileTree)
    (h : Does (assemble s (rules s libraries) uber l) v c v') : s.Standing v'.disk l := by
  obtain ⟨v₀, v₁, d₂, hv₀, hcopy, hentry, hrest⟩ := assemble_does hs hl h
  rw [← hv₀] at hv
  have hdir := hentry.dir (Assembly.dir_of_copyTree (Settings.isResolved_directory hs hl) hv hcopy)
  split at hrest
  · next hroot =>
    rw [hrest]
    exact ⟨hdir, fun hne => absurd hroot hne⟩
  · obtain ⟨own, nested, d₃, -, -, hbindings, hshim⟩ := hrest
    obtain ⟨bytes, -, hbytes⟩ := hshim.file
    exact ⟨hshim.dir (hbindings.dir hdir), fun _ => ⟨bytes, hbytes⟩⟩

/-- Each library has its turn: those before it have left the disk it finds, and those after it
change what it leaves. -/
theorem exists_turn (hs : s.IsResolved) {as bs : List Library} {l : Library}
    (hshort : ∀ k ∈ as ++ l :: bs, k.shortName.IsPlain) {v v' : World} {cs : List Counts}
    (hv : v.disk.IsFileTree)
    (h : Does ((as ++ l :: bs).mapM (assemble s (rules s libraries) uber)) v cs v') :
    ∃ u c u', Does (assemble s (rules s libraries) uber l) u c u' ∧
      u.disk.IsFileTree ∧ u'.disk.IsFileTree ∧
      Grows (fun q => ∃ k ∈ as, s.Footprint k q) (· <+: s.outputDir.parts) v.disk u.disk ∧
      Grows (fun q => ∃ k ∈ bs, s.Footprint k q) (· <+: s.outputDir.parts) u'.disk v'.disk := by
  have hl : l ∈ as ++ l :: bs := List.mem_append_right _ List.mem_cons_self
  obtain ⟨_, u, c, u', _, has, hturn, hbs⟩ := does_mapM_split h
  obtain ⟨hgrows, hu, -⟩ := (within_assemble_all hs libraries uber fun k hk =>
    hshort k (List.mem_append_left _ hk)).does hv has
  obtain ⟨-, hu', -⟩ := (within_assemble hs libraries uber (hshort l hl)).does hu hturn
  obtain ⟨hgrows', -, -⟩ := (within_assemble_all hs libraries uber fun k hk =>
    hshort k (List.mem_append_right _ (List.mem_cons_of_mem _ hk))).does hu' hbs
  exact ⟨u, c, u', hturn, hu, hu', hgrows, hgrows'⟩

/-- All libraries stand when all have been assembled. -/
theorem standing_of_assemble_all (hs : s.IsResolved) {ls : List Library}
    (hshort : ∀ k ∈ ls, k.shortName.IsPlain) {v v' : World} {cs : List Counts}
    (hv : v.disk.IsFileTree) (h : Does (ls.mapM (assemble s (rules s libraries) uber)) v cs v')
    {l : Library} (hl : l ∈ ls) : s.Standing v'.disk l := by
  obtain ⟨as, bs, rfl⟩ := List.append_of_mem hl
  obtain ⟨u, c, u', hturn, hu, -, -, hgrows⟩ := exists_turn hs hshort hv h
  exact (standing_of_assemble hs (hshort l hl) hu hturn).grows hgrows

/-- **Libraries under different short names share nothing**: when a build succeeds, no place belongs
to two of them; each was assembled into a directory in which nothing stood, and what assembling it
left at its places is there in the end, but for the index of the merged tree. -/
theorem run_apart (hs : s.IsResolved) {w w' : World} {b : Built} (hw : w.disk.IsFileTree)
    (h : Does (run s) w b w') (hshort : ∀ l ∈ b.libraries, l.shortName.IsComponent)
    (hdiffer : b.libraries.Pairwise fun l k => l.shortName ≠ k.shortName) :
    (b.libraries.Pairwise fun l k => ∀ q, ¬ (s.Footprint l q ∧ s.Footprint k q)) ∧
    ∀ l ∈ b.libraries, ∃ uber u c u', Does (assemble s (rules s b.libraries) uber l) u c u' ∧
      (∀ q, (s.directory l).parts <+: q → u.disk.entryAt? q = none) ∧
      ∀ q, s.Footprint l q → q ≠ s.outputDir.parts ++ [Emission.indexName] →
        w'.disk.entryAt? q = u'.disk.entryAt? q := by
  obtain ⟨x, v, v₁, v₂, hp⟩ := passes_of_run hs hw h
  obtain ⟨uber, cs, -, hassemble⟩ := hp.assembled
  have hplain : ∀ l ∈ b.libraries, l.shortName.IsPlain := fun l hl => (hshort l hl).isPlain
  have hstanding : ∀ l ∈ b.libraries, s.Standing v₂.disk l := fun l hl =>
    standing_of_assemble_all hs hplain hp.tree₁ hassemble hl
  have hdisjoint : ∀ l ∈ b.libraries, ∀ k ∈ b.libraries, l.shortName ≠ k.shortName →
      ∀ q, ¬ (s.Footprint l q ∧ s.Footprint k q) := fun l hl k hk hne q =>
    Settings.Footprint.disjoint (hshort l hl) (hshort k hk) hne (hstanding l hl) (hstanding k hk) q
  refine ⟨hdiffer.imp_of_mem fun hl hk hne => hdisjoint _ hl _ hk hne, fun l hl => ?_⟩
  obtain ⟨as, bs, hsplit⟩ := List.append_of_mem hl
  rw [hsplit] at hdiffer hplain hassemble
  obtain ⟨u, c, u', hturn, hu, hu', hbefore, hafter⟩ := exists_turn hs hplain hp.tree₁ hassemble
  have hothers : ∀ k ∈ as ++ bs, ∀ q, ¬ (s.Footprint l q ∧ s.Footprint k q) := by
    intro k hk
    have hmem : k ∈ b.libraries := by
      rw [hsplit]
      rcases List.mem_append.mp hk with hk | hk
      · exact List.mem_append_left _ hk
      · exact List.mem_append_right _ (List.mem_cons_of_mem _ hk)
    obtain ⟨-, hlbs, hasl⟩ := List.pairwise_append.mp hdiffer
    refine hdisjoint l hl k hmem ?_
    rcases List.mem_append.mp hk with hk | hk
    · exact (hasl k hk l List.mem_cons_self).symm
    · exact (List.pairwise_cons.mp hlbs).1 k hk
  refine ⟨uber, u, c, u', ?_, fun q hq => ?_, fun q hq hne => ?_⟩
  · rw [hsplit]
    exact hturn
  · rcases hbefore.entries q with he | ⟨k, hk, hqk⟩ | ⟨habove, -, -⟩
    · rw [he, hp.cleared, if_pos]
      refine ⟨?_, ?_⟩
      · rw [Settings.parts_directory (hshort l hl).isPlain] at hq
        exact (List.prefix_append _ _).trans hq
      · rintro rfl
        have hlength := hq.length_le
        rw [Settings.length_directory (hshort l hl)] at hlength
        exact absurd hlength (Nat.not_succ_le_zero _)
    · exact absurd ⟨Or.inl hq, hqk⟩ (hothers k (List.mem_append_left _ hk) q)
    · exact absurd habove (Settings.not_prefix_output (hshort l hl) hq)
  · rw [hp.index.frame hne]
    rcases hafter.entries q with he | ⟨k, hk, hqk⟩ | ⟨habove, hnone, -⟩
    · exact he
    · exact absurd ⟨hq, hqk⟩ (hothers k (List.mem_append_right _ hk) q)
    · rcases hq with hq | ⟨hroot, rfl⟩
      · exact absurd habove (Settings.not_prefix_output (hshort l hl) hq)
      · -- the shim stands when its library has been assembled
        obtain ⟨bytes, hbytes⟩ :=
          (standing_of_assemble hs (hshort l hl).isPlain hu hturn).shim hroot
        rw [hbytes] at hnone
        cases hnone

theorem run_apart_sample :
    (Sample.settings ["u", "lib"]).IsResolved ∧ (Sample.disk 0).IsFileTree ∧
    ∃ b w', Does (run (Sample.settings ["u", "lib"])) ⟨Sample.disk 0, []⟩ b w' ∧
      (∀ l ∈ b.libraries, l.shortName.IsComponent) ∧
      (b.libraries.Pairwise fun l k => l.shortName ≠ k.shortName) ∧
      (b.libraries.Pairwise fun l k => ∀ q, ¬ ((Sample.settings ["u", "lib"]).Footprint l q ∧
        (Sample.settings ["u", "lib"]).Footprint k q)) ∧
      ∀ l ∈ b.libraries, ∃ uber u c u',
        Does (assemble (Sample.settings ["u", "lib"])
          (rules (Sample.settings ["u", "lib"]) b.libraries) uber l) u c u' ∧
        (∀ q, ((Sample.settings ["u", "lib"]).directory l).parts <+: q → u.disk.entryAt? q = none) ∧
        ∀ q, (Sample.settings ["u", "lib"]).Footprint l q → q ≠ ["u", "lib", "index.ts"] →
          w'.disk.entryAt? q = u'.disk.entryAt? q := by
  obtain ⟨j, hj⟩ := Sample.runs []
  have hs : (Sample.settings ["u", "lib"]).IsResolved := Sample.isResolved_settings (by decide)
  have hshort : ∀ l ∈ [Sample.a, Sample.core], l.shortName.IsComponent := by decide
  have hdiffer : [Sample.a, Sample.core].Pairwise fun l k => l.shortName ≠ k.shortName := by decide
  have happly := run_apart hs Sample.isFileTree_disk hj hshort hdiffer
  exact ⟨hs, Sample.isFileTree_disk, _, _, hj, hshort, hdiffer, happly⟩

namespace Sample

/-! Libraries that share a directory: two have the same short name, and that of the third spells the
same path. -/

def twin : Library := library "a" "b" "a"

def dotted : Library := library "@s/./a" "c" "./a"

def clash : List Library := [a, twin, dotted]

/-- The files of a library that are written into the shared directory and beside the merged tree. -/
def shared (l : Library) : List (Place × Entry) :=
  [(["u", "lib", "a", "index.ts"], textFile (Glue.entryPoint {} l)),
    (["u", "lib", "a", ".jsiirc.json"], textFile (Emission.bindingsFile none).write),
    (["u", "a.ts"], textFile (Glue.shim {} ⟨.slash, ["u", "lib"]⟩ l))]

/-- What stands at first, and then the directories that are made. -/
def clashEntries : List (Place × Entry) :=
  documents ["@s/a", "a", "@s/./a"] ++ directory "@s/a" "a" ++ directory "a" "b" ++
    directory "@s/./a" "c" ++
    ([(["u", "lib"], .dir), (["u", "lib", "a"], .dir)] : List (Place × Entry))

/-- The disk when `m` directories have been made and `n` files have been written, of which the last
three are there. -/
def clashDisk (m n : Nat) : Disk where
  entries :=
    clashEntries.take (10 + m) ++ ((shared a ++ shared twin ++ shared dotted).take n).drop (n - 3)
  cwd := []
  tag := "t"

/-- The disk in the end. -/
def clashEnd : Disk :=
  (clashDisk 2 9).put ["u", "lib", "index.ts"] (textFile (Glue.index {} "core" clash))

theorem clash_finds : Discovery.Finds (clashDisk 0 0) ⟨.slash, ["p"]⟩ "@s/" ⟨clash, []⟩ := by
  refine @finds_all _ ["a", "b", "c"] _ rfl rfl rfl (by decide) (fun n hn => ?_)
    (.cons (examines_taken (readable_fields "@s/a") (by decide) rfl rfl rfl)
      (.cons (examines_taken (readable_fields "a") (by decide) rfl rfl rfl)
        (.cons (examines_taken (readable_fields "@s/./a") (by decide) rfl rfl rfl) .nil)))
  simp only [List.mem_cons, List.not_mem_nil, or_false] at hn
  rcases hn with rfl | rfl | rfl <;> rfl

theorem clash_verifies : Gives (verify (settings ["u", "lib"])) (clashDisk 0 0)
    ⟨clash, Sample.uber ["@s/a", "a", "@s/./a"], ⟨[], {}, {}⟩⟩ (clashDisk 0 0) :=
  gives_verify_uber (by decide) (by decide) clash_finds rfl rfl rfl

/-- A library is assembled into the shared directory. -/
theorem clash_assembles {l : Library} {d₀ d₁ d₂ d₃ d₄ : Disk} (hroot : l.shortName ≠ "core")
    (hbindings : l.manifest.targets = .ok none) (hentry : (Glue.entryPoint {} l).IsChars)
    (hshim : (Glue.shim {} ⟨.slash, ["u", "lib"]⟩ l).IsChars)
    (hcopy : Gives (Assembly.copyTree (rules (settings ["u", "lib"]) clash) l.root
      ((⟨.slash, ["u", "lib"]⟩ : Path) / l.shortName)) d₀ ⟨0, 0, 1⟩ d₁)
    (h₂ : d₁.writeFile ((⟨.slash, ["u", "lib"]⟩ : Path) / l.shortName / ("index.ts" : Text))
      (bytesOf (Glue.entryPoint {} l)) = (d₂, none))
    (h₃ : d₂.writeFile ((⟨.slash, ["u", "lib"]⟩ : Path) / l.shortName / (".jsiirc.json" : Text))
      (bytesOf (Emission.bindingsFile none).write) = (d₃, none))
    (h₄ : d₃.writeFile ((⟨.slash, ["u"]⟩ : Path) / (l.shortName ++ ".ts" : Text))
      (bytesOf (Glue.shim {} ⟨.slash, ["u", "lib"]⟩ l)) = (d₄, none)) :
    Gives (assemble (settings ["u", "lib"]) (rules (settings ["u", "lib"]) clash) none l) d₀
      ⟨0, 0, 1⟩ d₄ :=
  gives_assemble_other hroot hcopy (gives_put hentry h₂) hbindings rfl (gives_put (by decide) h₃)
    (gives_put hshim h₄)

theorem clash_runs : Gives (run (settings ["u", "lib"])) (clashDisk 0 0)
    ⟨clash, ⟨.slash, ["u", "lib"]⟩, ⟨0, 0, 3⟩⟩ clashEnd := by
  have huber : targetsOf (Sample.uber ["@s/a", "a", "@s/./a"]) = .ok none := rfl
  have hclear :
      Gives (clear (settings ["u", "lib"]).outputDir) (clashDisk 0 0) () (clashDisk 0 0) :=
    gives_clear rfl
  have ha : Gives (assemble (settings ["u", "lib"]) (rules (settings ["u", "lib"]) clash) none a)
      (clashDisk 0 0) ⟨0, 0, 1⟩ (clashDisk 2 3) :=
    clash_assembles (by decide) rfl (by decide) (by decide)
      (gives_bare rfl (list_bare rfl)) rfl rfl rfl
  have htwin :
      Gives (assemble (settings ["u", "lib"]) (rules (settings ["u", "lib"]) clash) none twin)
        (clashDisk 2 3) ⟨0, 0, 1⟩ (clashDisk 2 6) :=
    clash_assembles (by decide) rfl (by decide) (by decide)
      (gives_bare rfl (list_bare rfl)) rfl rfl rfl
  have hdotted :
      Gives (assemble (settings ["u", "lib"]) (rules (settings ["u", "lib"]) clash) none dotted)
        (clashDisk 2 6) ⟨0, 0, 1⟩ (clashDisk 2 9) :=
    clash_assembles (by decide) rfl (by decide) (by decide)
      (gives_bare rfl (list_bare rfl)) rfl rfl rfl
  have hassemble : Gives (clash.mapM
      (assemble (settings ["u", "lib"]) (rules (settings ["u", "lib"]) clash) none)) (clashDisk 0 0)
      [⟨0, 0, 1⟩, ⟨0, 0, 1⟩, ⟨0, 0, 1⟩] (clashDisk 2 9) :=
    ha.mapM_cons (htwin.mapM_cons (hdotted.mapM_cons gives_mapM_nil))
  have hindex :
      Gives (Emission.index (settings ["u", "lib"]).outputDir clash "core") (clashDisk 2 9) _
        clashEnd := gives_put (by decide) rfl
  exact gives_run clash_verifies (gives_prepare huber hclear hassemble hindex)

end Sample

/-- Libraries share their places when their short names are the same, or spell the same path: a
build succeeds all the same, and a file that stands in the end belongs to both. -/
theorem run_shares : ∃ (s : Settings) (w : World), s.IsResolved ∧ w.disk.IsFileTree ∧
    ∃ b w', Does (run s) w b w' ∧
      (∃ l ∈ b.libraries, ∃ k ∈ b.libraries, l.root ≠ k.root ∧ l.shortName = k.shortName ∧
        ∃ q bytes, s.Footprint l q ∧ s.Footprint k q ∧ w'.disk.entryAt? q = some (.file bytes)) ∧
      ∃ l ∈ b.libraries, ∃ k ∈ b.libraries, l.shortName ≠ k.shortName ∧
        ∃ q bytes, s.Footprint l q ∧ s.Footprint k q ∧ w'.disk.entryAt? q = some (.file bytes) := by
  obtain ⟨j, hj⟩ := Sample.clash_runs []
  have htree : (Sample.clashDisk 0 0).IsFileTree :=
    ⟨by decide, Disk.isTree_of_entries (by decide), by decide⟩
  have hindex :
      ∃ bytes, Sample.clashEnd.entryAt? ["u", "lib", "a", "index.ts"] = some (.file bytes) :=
    ⟨_, rfl⟩
  obtain ⟨bytes, hbytes⟩ := hindex
  have hshared : ∀ l ∈ Sample.clash, (Sample.settings ["u", "lib"]).Footprint l
      ["u", "lib", "a", "index.ts"] := by
    intro l hl
    refine Or.inl ?_
    revert l
    decide
  have hmem : Sample.a ∈ Sample.clash ∧ Sample.twin ∈ Sample.clash ∧ Sample.dotted ∈ Sample.clash :=
    ⟨List.mem_cons_self, List.mem_cons_of_mem _ List.mem_cons_self,
      List.mem_cons_of_mem _ (List.mem_cons_of_mem _ List.mem_cons_self)⟩
  refine ⟨Sample.settings ["u", "lib"], ⟨Sample.clashDisk 0 0, []⟩,
    Sample.isResolved_settings (by decide),
    htree, _, _, hj, ⟨Sample.a, hmem.1, Sample.twin, hmem.2.1, by decide, rfl, _, bytes,
      hshared _ hmem.1, hshared _ hmem.2.1, hbytes⟩, Sample.a, hmem.1, Sample.dotted,
        hmem.2.2, by decide,
      _, bytes, hshared _ hmem.1, hshared _ hmem.2.2, hbytes⟩

end Build

end UberPackage
