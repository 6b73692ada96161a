/-
  What a build copies from.

  A build copies each library from its own directory.  Neither the directory nor where it is copied
  to is compared with anything, so a library can be copied from what the build has made: when the
  merged tree is inside of it, or when the short name of another library leads into it
  (`Build.copies_itself`).

  For a library apart from the merged tree, and short names that are no paths, copying keeps to what
  was in the library when the build started (`Build.copies_from_library`): nothing else is listed or
  read, there are no more directories made than the library has, and the steps are bounded by its
  entries.
-/
import UberPackage.Proofs.Assembly.Course
import UberPackage.Proofs.Build.Module

namespace UberPackage

namespace Disk.SameKinds

variable {d e : Disk} {top : Place}

theorem length_below_le (h : SameKinds d e top) (htop : top ≠ []) (he : e.Distinct) :
    (e.below top).length ≤ (d.below top).length := by
  refine ((nodup_below he top).subperm fun y hy => ?_).length_le
  have hne := List.append_ne_nil_of_left_ne_nil htop y
  rwa [mem_below_iff hne, ← h.isSome, ← mem_below_iff hne]

theorem length_directories_le (h : SameKinds d e top) (htop : top ≠ []) (x : Place) :
    (e.directories (top ++ x)).length ≤ (d.directories (top ++ x)).length := by
  refine ((List.nodup_dedup _).subperm fun y hy => ?_).length_le
  have hne := List.append_ne_nil_of_left_ne_nil htop x
  replace hy := (mem_directories hne).mp hy
  rw [List.append_assoc] at hy
  rw [mem_directories hne, List.append_assoc]
  exact h.symm.dir hy

end Disk.SameKinds

namespace Build

open Act Disk Assembly

variable {s : Settings} {w u : World} {l : Library} {libraries : List Library}

/-- Copying a library has come to a world and to tasks, and has kept to what was in the library when
the build started. -/
structure KeepsTo (s : Settings) (w : World) (l : Library) (u : World) (n : Nat)
    (ts : List Task) (v : World) : Prop where
  /-- Nothing has been made in the library. -/
  source : SameKinds w.disk v.disk l.root.parts
  /-- What is listed or read next was in the library. -/
  reads : ∀ t ∈ ts, ∀ p, t.reads? = some p →
    l.root.parts <+: p.parts ∧ (w.disk.entryAt? p.parts).isSome = true
  /-- In no part of its place has it more directories than were in this part of the library. -/
  made : ∀ x, (u.disk.made v.disk ((s.directory l).parts ++ x)).length ≤
    (w.disk.directories (l.root.parts ++ x)).length
  steps : n ≤ 4 * (w.disk.below l.root.parts).length + 2

/-- **Copying does not feed on what the build makes**: when a build comes to a library, then copying
it, in whatever order and however far it comes, keeps to what was in the library when the build
started.  The short names have to be no paths, and the library and the merged tree not inside one
another. -/
theorem copies_from_library (hs : s.IsResolved) (hw : w.disk.IsFileTree)
    (h : ComesTo s w libraries l u) (hshort : ∀ k ∈ libraries, k.shortName.IsPlain)
    (hapart : Place.Unrelated s.outputDir.parts l.root.parts) :
    (∀ n ts v, Comes (rules s libraries) [.make l.root (s.directory l)] u n ts v →
      KeepsTo s w l u n ts v) ∧
    ∃ n ts, Comes (rules s libraries) [.make l.root (s.directory l)] u n ts
      ((copyTree (rules s libraries) l.root (s.directory l)).runIn u).2 := by
  refine ⟨fun n ts v hcomes => ?_, comes_of_copyTree _ _ _ _⟩
  obtain ⟨hroot, hdir⟩ := h.library hs hw
  obtain ⟨hu, hkinds⟩ := h.sameKinds hs hw hshort
  replace hkinds := hkinds hapart
  have hl := hshort l h.mem
  let m : Mirror := ⟨rules s libraries, u.disk, l.root, s.directory l⟩
  have hseparate : m.Separate :=
    ⟨hu, hroot, Settings.isResolved_directory hs hl, Settings.unrelated_directory hl hapart⟩
  have htop : m.original? [] = some .dir := by
    rw [Mirror.original?, hseparate.top_eq]
    exact hkinds.dir (y := []) (by rw [List.append_nil, hdir])
  obtain ⟨hsource, hopens, hworks, hn⟩ := Mirror.course_of_copy hseparate htop rfl hcomes
  have hne := hapart.symm.ne_nil
  exact {
    source := hkinds.trans (.of_same fun y => by
      rw [hsource y, Mirror.original?, hseparate.top_eq])
    reads := fun t ht p hp => by
      obtain ⟨g, hg⟩ := hworks t ht
      obtain ⟨y, rfl, -, hy⟩ := hg.reads hseparate hp
      refine ⟨List.prefix_append _ _, ?_⟩
      rw [Mirror.original?, hseparate.top_eq] at hy
      exact (hkinds.isSome y).symm.trans hy
    made := fun x => (Mirror.length_made_le hseparate hopens x).trans
      (hkinds.length_directories_le hne x)
    steps := hn.trans (Nat.add_le_add_right
      (Nat.mul_le_mul_left 4 (hkinds.length_below_le hne hu.distinct)) 2) }

theorem copies_from_library_sample :
    (Sample.settings ["u", "lib"]).IsResolved ∧ (Sample.disk 0).IsFileTree ∧
    (∀ k ∈ [Sample.a, Sample.core], k.shortName.IsPlain) ∧
    Place.Unrelated ["u", "lib"] Sample.a.root.parts ∧
    ∃ u, ComesTo (Sample.settings ["u", "lib"]) ⟨Sample.disk 0, []⟩
      [Sample.a, Sample.core] Sample.a u ∧
      (∀ n ts v, Comes (rules (Sample.settings ["u", "lib"]) [Sample.a, Sample.core])
          [.make Sample.a.root ((Sample.settings ["u", "lib"]).directory Sample.a)] u n ts v →
        KeepsTo (Sample.settings ["u", "lib"]) ⟨Sample.disk 0, []⟩ Sample.a u n ts v) ∧
      ∃ n ts, Comes (rules (Sample.settings ["u", "lib"]) [Sample.a, Sample.core])
        [.make Sample.a.root ((Sample.settings ["u", "lib"]).directory Sample.a)] u n ts
        ((copyTree (rules (Sample.settings ["u", "lib"]) [Sample.a, Sample.core]) Sample.a.root
          ((Sample.settings ["u", "lib"]).directory Sample.a)).runIn u).2 := by
  have hs : (Sample.settings ["u", "lib"]).IsResolved := Sample.isResolved_settings (by decide)
  have hshort : ∀ k ∈ [Sample.a, Sample.core], k.shortName.IsPlain := by decide
  have hapart : Place.Unrelated ["u", "lib"] Sample.a.root.parts := by decide
  have hclear :
      Gives (clear (Sample.settings ["u", "lib"]).outputDir) (Sample.disk 0) () (Sample.disk 0) :=
    gives_clear rfl
  obtain ⟨j, hj⟩ := Sample.verifies []
  obtain ⟨j', hj'⟩ := hclear j
  have hcomes :
      ComesTo (Sample.settings ["u", "lib"]) ⟨Sample.disk 0, []⟩ [Sample.a, Sample.core] Sample.a
        ⟨Sample.disk 0, j'⟩ :=
    ⟨_, _, _, _, _, none, [], [Sample.core], [], hj, rfl, rfl, rfl, hj', rfl,
      does_pure.mpr ⟨rfl, rfl⟩, rfl⟩
  exact ⟨hs, Sample.isFileTree_disk, hshort, hapart, _, hcomes,
    copies_from_library (w := ⟨Sample.disk 0, []⟩) hs Sample.isFileTree_disk hcomes hshort hapart⟩

namespace Sample

/-! A library with nothing but its manifest. -/

/-- The disk when directories have been made. -/
def bare (made : List Place) : Disk where
  entries := documents ["@s/a"] ++ directory "@s/a" "a" ++ made.map fun place => (place, .dir)
  cwd := []
  tag := "t"

theorem isFileTree_bare : (bare []).IsFileTree :=
  ⟨by decide, Disk.isTree_of_entries (by decide), by decide⟩

theorem bare_comesTo {output : Place} (h : (bare []).exists? ⟨.slash, output⟩ = .ok false) :
    ∃ j, ComesTo (settings output) ⟨bare [], []⟩ [a] a ⟨bare [], j⟩ := by
  have hfinds : Discovery.Finds (bare []) ⟨.slash, ["p"]⟩ "@s/" ⟨[a], []⟩ :=
    finds_one (readable_fields "@s/a") (by decide) rfl rfl rfl rfl rfl rfl rfl
  have hverifies :
      Gives (verify (settings output)) (bare []) ⟨[a], uber ["@s/a"], ⟨[], {}, {}⟩⟩ (bare []) :=
    gives_verify_uber (List.nodup_singleton _) (by decide) hfinds rfl rfl rfl
  have hclear : Gives (clear ⟨.slash, output⟩) (bare []) () (bare []) := gives_clear h
  obtain ⟨j, hj⟩ := hverifies []
  obtain ⟨j', hj'⟩ := hclear j
  exact ⟨j', _, _, _, _, _, none, [], [], [], hj, rfl, rfl, rfl, hj', rfl,
    does_pure.mpr ⟨rfl, rfl⟩, rfl⟩

/-- With the merged tree inside of it, the library is copied into the merged tree, and that
again. -/
theorem bare_comes (j : List Record) : ∃ j', Comes (rules (settings ["p", "a", "lib"]) [a])
    [.make a.root ⟨.slash, ["p", "a", "lib", "a"]⟩] ⟨bare [], j⟩ 4
    [.list ⟨.slash, ["p", "a", "lib"]⟩ ⟨.slash, ["p", "a", "lib", "a", "lib"]⟩]
    ⟨bare [["p", "a", "lib"], ["p", "a", "lib", "a"], ["p", "a", "lib", "a", "lib"]], j'⟩ := by
  let r := rules (settings ["p", "a", "lib"]) [a]
  let two : List Place := [["p", "a", "lib"], ["p", "a", "lib", "a"]]
  have hmake : Gives (Task.step r (.make a.root ⟨.slash, ["p", "a", "lib", "a"]⟩)) (bare [])
    { tasks := [.list a.root ⟨.slash, ["p", "a", "lib", "a"]⟩] } (bare two) := gives_make rfl
  have hlist : (bare two).list a.root = .ok ["lib", "package.json"] :=
    congrArg Except.ok (Text.sort_of_perm (by decide) (by decide))
  have hlisted :
      Gives (Task.step r (.list a.root ⟨.slash, ["p", "a", "lib", "a"]⟩)) (bare two)
        ⟨[.classify a.root ⟨.slash, ["p", "a", "lib", "a"]⟩ "lib"], ⟨0, 0, 1⟩⟩ (bare two) :=
    gives_list _ hlist
  have hclassified :
      Gives (Task.step r (.classify a.root ⟨.slash, ["p", "a", "lib", "a"]⟩ "lib")) (bare two)
        { tasks := [.make ⟨.slash, ["p", "a", "lib"]⟩ ⟨.slash, ["p", "a", "lib", "a", "lib"]⟩] }
        (bare two) :=
    gives_classify_directory _ rfl
  have hnested :
      Gives (Task.step r
          (.make ⟨.slash, ["p", "a", "lib"]⟩ ⟨.slash, ["p", "a", "lib", "a", "lib"]⟩))
        (bare two)
        { tasks := [.list ⟨.slash, ["p", "a", "lib"]⟩ ⟨.slash, ["p", "a", "lib", "a", "lib"]⟩] }
        (bare (two ++ ([["p", "a", "lib", "a", "lib"]] : List Place))) :=
    gives_make rfl
  exact @Comes.of_gives _ [] [] _ _ _ _ _ _ _ hmake (@Comes.of_gives _ [] [] _ _ _ _ _ _ _ hlisted
    (@Comes.of_gives _ [] [] _ _ _ _ _ _ _ hclassified
      (@Comes.of_gives _ [] [] _ _ _ _ _ _ _ hnested fun j => ⟨j, .here _ _⟩))) j

/-! A library whose short name leads into another library. -/

theorem intruded_comesTo : ∃ j, ComesTo (settings ["u", "lib"])
    ⟨intruded 0, []⟩ [intruder, a] a ⟨intruded 4, j⟩ := by
  have hclear : Gives (clear (settings ["u", "lib"]).outputDir) (intruded 0) () (intruded 0) :=
    gives_clear rfl
  have hbefore : Gives ([intruder].mapM (assemble (settings ["u", "lib"])
      (rules (settings ["u", "lib"]) [intruder, a]) none)) (intruded 0) [⟨0, 0, 1⟩] (intruded 4) :=
    (intruder_assembles []).mapM_cons gives_mapM_nil
  obtain ⟨j, hj⟩ := intruded_verifies [] []
  obtain ⟨j₁, hj₁⟩ := hclear j
  obtain ⟨j₂, hj₂⟩ := hbefore j₁
  exact ⟨j₂, _, _, _, _, _, none, [intruder], [], _, hj, rfl, rfl, rfl, hj₁, rfl, hj₂, rfl⟩

/-- The entry point of the other library is redirected. -/
theorem intruded_comes (j : List Record) : ∃ j', Comes (rules (settings ["u", "lib"]) [intruder, a])
    [.make a.root ⟨.slash, ["u", "lib", "a"]⟩] ⟨intruded 4, j⟩ 3
    [.classify a.root ⟨.slash, ["u", "lib", "a"]⟩ ".jsiirc.json",
      .compare a.root ⟨.slash, ["u", "lib", "a"]⟩ "index.js" "index.ts",
      .redirect a.root ⟨.slash, ["u", "lib", "a"]⟩ "index.ts",
      .classify a.root ⟨.slash, ["u", "lib", "a"]⟩ "y.ts"] ⟨intruded 5, j'⟩ := by
  let r := rules (settings ["u", "lib"]) [intruder, a]
  let target : Path := ⟨.slash, ["u", "lib", "a"]⟩
  have hmake : Gives (Task.step r (.make a.root target)) (intruded 4)
      { tasks := [.list a.root target] } (intruded 5) :=
    gives_make rfl
  have hlist : (intruded 5).list a.root = .ok
      [".jsiirc.json", "index.js", "index.ts", "package.json", "y.ts"] :=
    congrArg Except.ok (Text.sort_of_perm (by decide) (by decide))
  have hlisted : Gives (Task.step r (.list a.root target)) (intruded 5)
    ⟨[.classify a.root target ".jsiirc.json", .compare a.root target "index.js" "index.ts",
      .classify a.root target "index.ts", .classify a.root target "y.ts"], ⟨0, 0, 1⟩⟩
        (intruded 5) := gives_list _ hlist
  have hclassified : Gives (Task.step r (.classify a.root target "index.ts")) (intruded 5)
    { tasks := [.redirect a.root target "index.ts"] } (intruded 5) :=
    gives_classify_source _ rfl rfl
  exact @Comes.of_gives _ [] [] _ _ _ _ _ _ _ hmake (@Comes.of_gives _ [] [] _ _ _ _ _ _ _ hlisted
    (@Comes.of_gives _ [.classify a.root target ".jsiirc.json",
      .compare a.root target "index.js" "index.ts"]
      [.classify a.root target "y.ts"] _ _ _ _ _ _ _ hclassified fun j => ⟨j, .here _ _⟩)) j

end Sample

/-- A task that is left reads what was not there when the build started. -/
def ReadsMade (w v : World) (ts : List Task) : Prop :=
  ∃ t ∈ ts, ∃ p, t.reads? = some p ∧ w.disk.entryAt? p.parts = none ∧
  (v.disk.entryAt? p.parts).isSome = true

/-- Copying reads what the build has made when the merged tree is inside of the library, and then
makes more directories than the library had; also when the short name of another library leads into
the library. More directories than those of the library are made in any case when those above the
target are missing. -/
theorem copies_itself :
    (∃ s w libraries l u, s.IsResolved ∧ w.disk.IsFileTree ∧ ComesTo s w libraries l u ∧
      (∀ k ∈ libraries, k.shortName.IsPlain) ∧
      ∃ n ts v, Comes (rules s libraries) [.make l.root (s.directory l)] u n ts v ∧
        ReadsMade w v ts ∧
        (w.disk.directories l.root.parts).length <
          (u.disk.made v.disk (s.directory l).parts).length) ∧
    (∃ s w libraries l u, s.IsResolved ∧ w.disk.IsFileTree ∧ ComesTo s w libraries l u ∧
      Place.Unrelated s.outputDir.parts l.root.parts ∧
      ∃ n ts v, Comes (rules s libraries) [.make l.root (s.directory l)] u n ts v ∧
      ReadsMade w v ts) ∧
    ∃ s w libraries l u, s.IsResolved ∧ w.disk.IsFileTree ∧ ComesTo s w libraries l u ∧
      (∀ k ∈ libraries, k.shortName.IsPlain) ∧ Place.Unrelated s.outputDir.parts l.root.parts ∧
      ∃ n ts v, Comes (rules s libraries) [.make l.root (s.directory l)] u n ts v ∧
        (w.disk.directories l.root.parts).length < (u.disk.made v.disk []).length := by
  refine ⟨?_, ?_, ?_⟩
  · obtain ⟨j, hcomesTo⟩ := @Sample.bare_comesTo ["p", "a", "lib"] rfl
    obtain ⟨j', hcomes⟩ := Sample.bare_comes j
    refine ⟨_, _, _, _, _, Sample.isResolved_settings (by decide), Sample.isFileTree_bare,
      hcomesTo, by decide,
      _, _, _, hcomes, ⟨_, List.mem_cons_self, _, rfl, by decide, rfl⟩, ?_⟩
    show ((Sample.bare []).directories ["p", "a"]).length < ((Sample.bare []).made (Sample.bare
      [["p", "a", "lib"], ["p", "a", "lib", "a"], ["p", "a", "lib", "a", "lib"]])
        ["p", "a", "lib", "a"]).length
    decide
  · obtain ⟨j, hcomesTo⟩ := Sample.intruded_comesTo
    obtain ⟨j', hcomes⟩ := Sample.intruded_comes j
    exact ⟨_, _, _, _, _, Sample.isResolved_settings (by decide), Sample.isFileTree_intruded,
      hcomesTo, by decide, _, _, _, hcomes,
      _, List.mem_cons_of_mem _ (List.mem_cons_of_mem _ List.mem_cons_self), _, rfl, by decide, rfl⟩
  · obtain ⟨j, hcomesTo⟩ := @Sample.bare_comesTo ["u", "lib"] rfl
    have hmake : Gives (Task.step (rules (Sample.settings ["u", "lib"]) [Sample.a])
      (.make Sample.a.root ⟨.slash, ["u", "lib", "a"]⟩)) (Sample.bare [])
      { tasks := [.list Sample.a.root ⟨.slash, ["u", "lib", "a"]⟩] }
      (Sample.bare [["u", "lib"], ["u", "lib", "a"]]) := gives_make rfl
    obtain ⟨j', hcomes⟩ := @Comes.of_gives _ [] [] _ _ _ _ _ _ _ hmake (fun j => ⟨j, .here _ _⟩) j
    refine ⟨_, _, _, _, _, Sample.isResolved_settings (by decide), Sample.isFileTree_bare,
      hcomesTo, by decide,
      by decide, _, _, _, hcomes, ?_⟩
    show ((Sample.bare []).directories ["p", "a"]).length < ((Sample.bare []).made
      (Sample.bare [["u", "lib"], ["u", "lib", "a"]]) []).length
    decide

end Build

end UberPackage
