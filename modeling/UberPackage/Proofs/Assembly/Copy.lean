/-
  A copied directory is the mirror of its source.

  `Mirror.Starts` is what copying begins with, and `Mirror.Copies` what it ends with: the target has
  the image of each place, nothing else has changed but directories on the way to the target, and
  the counts are the numbers of files in the target and of entries that were dropped.

  The invariant of `UberPackage.Proofs.Assembly.Run` holds once the target has been made, and
  says all this when no task is left (`Mirror.copies_of_runs`), whatever the order.
-/
import UberPackage.Proofs.Assembly.Run
import UberPackage.Proofs.Redirection.Ascii

namespace UberPackage

/-! ## Counting places -/

namespace Disk

/-- The number of files at a place and below it whose names are such. -/
def countFiles (d : Disk) (top : Place) (such : Text → Bool) : Nat :=
  (d.below top).countP fun y =>
    (d.entryAt? (top ++ y)).any Entry.isFile && such (Assembly.Mirror.nameOf y)

/-- Counts agree where the same places count. -/
theorem countP_below_congr {d d' : Disk} (hd : d.Distinct) (hd' : d'.Distinct) {top top' : Place}
    {p p' : Place → Bool}
    (h : ∀ y, (y ∈ d.below top ∧ p y = true) ↔ (y ∈ d'.below top' ∧ p' y = true)) :
    (d.below top).countP p = (d'.below top').countP p' := by
  have hperm : ((d.below top).filter p).Perm ((d'.below top').filter p') := by
    refine (List.perm_ext_iff_of_nodup ((nodup_below hd top).filter p)
      ((nodup_below hd' top').filter p')).mpr fun y => ?_
    rw [List.mem_filter, List.mem_filter, h]
  rw [List.countP_eq_length_filter, List.countP_eq_length_filter, hperm.length_eq]

/-- The way of a path without `..` leads down to its end. -/
theorem Way.isPrefix {d : Disk} {p : Path} {q : Place} (hp : ∀ part ∈ p.parts, part ≠ "..")
    (h : d.Way p q) : q <+: d.placeOf p := by
  obtain ⟨parts, hparts, rfl⟩ := h
  rw [placeOf, foldl_walkPart hp, foldl_walkPart fun part hm => hp part (hparts.subset hm)]
  exact (List.prefix_append_right_inj _).mpr hparts

/-- Below a place that no entry is at or below there is nothing. -/
theorem entryAt?_eq_none_of_keys {d : Disk} {top y : Place}
    (h : ∀ q ∈ d.entries.map Prod.fst, ¬ top <+: q) (hy : y ≠ []) :
    d.entryAt? (top ++ y) = none := by
  rw [entryAt?_of_ne (List.append_ne_nil_of_right_ne_nil _ hy)]
  by_contra hne
  exact h _ (mem_keys_iff.mpr (Option.isSome_iff_ne_none.mpr hne)) (List.prefix_append _ _)

end Disk

namespace Counts

/-- A number of each count, added up where one place counts one. -/
theorem sum_map_eq_countP (f : Counts →+ Nat) {α : Type} {as : List α} {g : α → Counts}
    {p : α → Bool} (h : ∀ a ∈ as, f (g a) = if p a then 1 else 0) :
    f (as.map g).sum = as.countP p := by
  induction as with
  | nil => exact map_zero f
  | cons a as ih =>
    rw [List.map_cons, List.sum_cons, map_add, List.countP_cons, h a List.mem_cons_self,
      ih fun b hb => h b (List.mem_cons_of_mem _ hb), Nat.add_comm]

/-- The number of redirected files. -/
def redirectedHom : Counts →+ Nat where
  toFun := redirected
  map_zero' := rfl
  map_add' := add_redirected

/-- The number of copied files. -/
def copiedHom : Counts →+ Nat where
  toFun := copied
  map_zero' := rfl
  map_add' := add_copied

/-- The number of skipped entries. -/
def skippedHom : Counts →+ Nat where
  toFun := skipped
  map_zero' := rfl
  map_add' := add_skipped

end Counts

namespace Assembly

namespace Mirror

/-! ## Before and after -/

/-- What copying begins with: the source is a directory of files and directories, the target is
empty or missing, and neither is inside the other, nor is the way to the target. -/
structure Starts (m : Mirror) : Prop where
  distinct : m.disk.Distinct
  source : m.disk.stat m.source = .ok .dir
  tree : m.disk.IsTree m.top
  empty : ∀ y, y ≠ [] → m.disk.entryAt? (m.goal ++ y) = none
  apart : ∀ q, m.disk.Way m.target q → ¬ m.top <+: q ∧ (m.goal <+: q → q = m.goal)
  notAbove : ¬ m.goal <+: m.top

/-- The entry is not copied although the directory that it is in is. -/
def dropped (m : Mirror) (y : Place) : Bool := m.keeps y.dropLast && !m.keeps y

/-- The disk has the copy, and the counts are right. -/
structure Copies (m : Mirror) (d : Disk) (c : Counts) : Prop where
  image : ∀ y, d.entryAt? (m.goal ++ y) = m.image? y
  defined : ∀ y, m.Defined y
  outside : ∀ q, ¬ m.goal <+: q → d.entryAt? q = m.disk.entryAt? q ∨
    (m.disk.entryAt? q = none ∧ d.entryAt? q = some .dir ∧ m.disk.Way m.target q)
  redirected : c.redirected = d.countFiles m.goal Suffix.isSource
  copied : c.copied = d.countFiles m.goal fun n => !Suffix.isSource n
  skipped : c.skipped = (m.disk.below m.top).countP m.dropped

variable {m : Mirror}

/-- A target whose path has no `..` has only to be apart from the source. -/
theorem Starts.of_noDots (hdistinct : m.disk.Distinct) (hsource : m.disk.stat m.source = .ok .dir)
    (htree : m.disk.IsTree m.top) (hempty : ∀ y, y ≠ [] → m.disk.entryAt? (m.goal ++ y) = none)
    (hdots : ∀ part ∈ m.target.parts, part ≠ "..") (hinside : ¬ m.top <+: m.goal)
    (habove : ¬ m.goal <+: m.top) : m.Starts where
  distinct := hdistinct
  source := hsource
  tree := htree
  empty := hempty
  apart q hq := by
    have hbegins := hq.isPrefix hdots
    refine ⟨fun h => hinside (h.trans hbegins), fun h => ?_⟩
    exact hbegins.eq_of_length (Nat.le_antisymm hbegins.length_le h.length_le)
  notAbove := habove

theorem Starts.leads (h : m.Starts) : m.source.nameFault? = none ∧ m.disk.Leads m.source ∧
    m.original? [] = some .dir := by
  have hstat := h.source
  rw [Disk.stat, except_bind_eq_ok] at hstat
  obtain ⟨q, hq, hstat⟩ := hstat
  obtain ⟨hname, hleads, rfl⟩ := Disk.locate_eq_ok.mp hq
  refine ⟨hname, hleads, ?_⟩
  split at hstat
  · next e he =>
    rw [original?, List.append_nil, top, he, Except.ok.inj hstat]
  · exact absurd hstat (by simp)

theorem Starts.sound (h : m.Starts) : m.Sound where
  distinct := h.distinct
  leads := h.leads.2.1
  units := Path.hasNameUnits_of_nameFault? h.leads.1
  tree := h.tree
  notInside := (h.apart _ (Disk.way_placeOf _ _)).1
  notAbove := h.notAbove

/-! ## Counts -/

theorem weight_nil (h : m.original? [] = some .dir) : m.weight [] = 0 := by
  rw [weight, if_pos m.keeps_nil, h]
  rfl

/-- All that is below the source counts. -/
theorem tally_all (h : m.original? [] = some .dir) :
    m.tally ⟨[], true⟩ = ((m.disk.below m.top).map m.weight).sum := by
  refine congrArg List.sum (List.map_congr_left fun y _ => ?_)
  by_cases hy : y = []
  · rw [if_neg fun hc => hc.2 rfl hy, hy, weight_nil h]
  · rw [if_pos ⟨List.nil_prefix, fun _ => hy⟩]

/-- A kept file of the source counts as redirected or copied, by its name. -/
theorem weight_of_file {y : Place} : (m.weight y).redirected =
      (if m.keeps y && (m.original? y).any Entry.isFile &&
        Suffix.isSource (nameOf y) then 1 else 0) ∧
    (m.weight y).copied =
      (if m.keeps y && (m.original? y).any Entry.isFile &&
        !Suffix.isSource (nameOf y) then 1 else 0) ∧
    (m.weight y).skipped = if m.dropped y then 1 else 0 := by
  rw [weight, dropped]
  cases hk : m.keeps y with
  | false => cases m.keeps y.dropLast <;> exact ⟨rfl, rfl, rfl⟩
  | true =>
    rw [Bool.not_true, Bool.and_false, if_pos rfl]
    rcases m.original? y with _ | _ | _
    · exact ⟨rfl, rfl, rfl⟩
    · cases Suffix.isSource (nameOf y) <;> exact ⟨rfl, rfl, rfl⟩
    · exact ⟨rfl, rfl, rfl⟩

/-- The image is a file where the source is a file that is kept. -/
theorem any_isFile_image? {y : Place} (h : m.Defined y) :
    (m.image? y).any Entry.isFile = (m.keeps y && (m.original? y).any Entry.isFile) := by
  unfold Defined image? at h
  unfold image?
  generalize m.original? y = e at h ⊢
  cases hk : m.keeps y with
  | false => rfl
  | true =>
    rw [hk, if_pos rfl] at h
    rw [if_pos rfl]
    cases e with
    | none => rfl
    | some e =>
      cases e with
      | dir => rfl
      | file bytes =>
        dsimp only at h ⊢
        by_cases hs : Suffix.isSource (nameOf y) = true
        · rw [if_pos hs] at h ⊢
          cases ho : m.rules.redirected? (m.target.down y.dropLast) bytes with
          | none => rw [ho] at h; exact absurd h (by simp)
          | some out => rfl
        · rw [if_neg hs]
          rfl

/-- The files of the source that are kept are counted by the files of the copy. -/
theorem countP_files {d : Disk} (hd : d.Distinct) (hm : m.disk.Distinct)
    (h : m.original? [] = some .dir) (himage : ∀ y, d.entryAt? (m.goal ++ y) =
      m.image? y ∧ m.Defined y)
    (such : Text → Bool) :
    ((m.disk.below m.top).countP fun y =>
      m.keeps y && (m.original? y).any Entry.isFile && such (nameOf y)) =
        d.countFiles m.goal such := by
  refine Disk.countP_below_congr hm hd fun y => ?_
  have hfile : (m.keeps y && (m.original? y).any Entry.isFile && such (nameOf y)) =
      ((d.entryAt? (m.goal ++ y)).any Entry.isFile && such (nameOf y)) := by
    rw [(himage y).1, any_isFile_image? (himage y).2]
  rw [← hfile]
  refine and_congr_left fun hy => ?_
  rw [Bool.and_eq_true, Bool.and_eq_true] at hy
  have hne : y ≠ [] := fun he => by
    have hf := hy.1.2
    rw [he, h] at hf
    exact absurd hf (by simp [Entry.isFile])
  have hsome : (m.original? y).isSome = true := by
    cases he : m.original? y with
    | none =>
      have hf := hy.1.2
      rw [he] at hf
      exact absurd hf (by simp)
    | some e => rfl
  rw [Disk.mem_below_iff (List.append_ne_nil_of_right_ne_nil _ hne),
    Disk.mem_below_iff (List.append_ne_nil_of_right_ne_nil _ hne), (himage y).1]
  show (m.original? y).isSome = true ↔ _
  rw [show (m.image? y).isSome = _ from (himage y).2, hy.1.1, Bool.true_and]

/-! ## The main result -/

/-- Making the target is the first step. -/
theorem Starts.inv (h : m.Starts) {d : Disk} (hmake : Disk.Makes m.disk d m.target) :
    m.Inv d d [(.list m.source m.target, ⟨[], true⟩)] {} := by
  have hopens := hmake.toOpens
  have hsound := h.sound
  have hsource : ∀ y, d.entryAt? (m.top ++ y) = m.original? y := fun y => by
    rcases hopens.entries (m.top ++ y) with he | ⟨-, -, hway⟩
    · exact he
    · exact absurd (List.prefix_append _ _) (h.apart _ hway).1
  have hgoal : ∀ y, y ≠ [] → d.entryAt? (m.goal ++ y) = none := fun y hy => by
    rcases hopens.entries (m.goal ++ y) with he | ⟨-, -, hway⟩
    · rw [he, h.empty y hy]
    · exact absurd ((h.apart _ hway).2 (List.prefix_append _ _)) (by simpa using hy)
  exact {
    stays :=
      ⟨hopens.cwd, hopens.distinct h.distinct, hsource, hopens.leads hsound.leads, hmake.leads'⟩
    works := fun p hp => by
      rw [List.mem_singleton.mp hp]
      have hlist := Works.list (m := m) m.keeps_nil h.leads.2.2
      rwa [Path.down_nil, Path.down_nil] at hlist
    apart := List.pairwise_singleton _ _
    empty := fun p hp y hy => by
      rw [List.mem_singleton.mp hp] at hy
      exact hgoal y (hy.2 rfl)
    done := fun y hy => by
      have hnil : y = [] := by
        by_contra hne
        exact hy _ List.mem_cons_self ⟨List.nil_prefix, fun _ => hne⟩
      obtain ⟨himage, hdefined⟩ := m.image?_of_dir m.keeps_nil h.leads.2.2
      rw [hnil, List.append_nil, himage]
      exact ⟨hmake.dir, hdefined⟩
    outside := fun _ _ => rfl
    tally := by
      rw [List.map_singleton, List.sum_singleton]
      exact zero_add _ }

/-- When the tasks of copying have run to their end, the copy has been made. -/
theorem Starts.copies (h : m.Starts) {w w' : World} (hw : w.disk = m.disk) {c : Counts}
    (hruns : Runs m.rules [.make m.source m.target] w c w') : m.Copies w'.disk c := by
  obtain ⟨p, v, c', hstep, hrest, rfl⟩ := hruns.of_singleton
  obtain ⟨hmake, rfl⟩ := Task.make_does hstep
  rw [hw] at hmake
  have hinv := (h.inv hmake).run h.sound hrest rfl
  have himage := fun y => hinv.done y fun _ hp => absurd hp List.not_mem_nil
  have htally : ((m.disk.below m.top).map m.weight).sum = c' := by
    rw [← tally_all h.leads.2.2, ← hinv.tally, List.map_nil, List.sum_nil, add_zero]
    exact zero_add _
  have hcounts : ∀ (f : Counts →+ Nat) {q : Place → Bool},
      (∀ y, f (m.weight y) = if q y then 1 else 0) → f c' = (m.disk.below m.top).countP q := by
    intro f q hq
    rw [← htally]
    exact Counts.sum_map_eq_countP f fun y _ => hq y
  have hfiles := countP_files hinv.stays.distinct h.distinct h.leads.2.2 himage
  rw [show ({} : Counts) + c' = c' from zero_add c']
  exact {
    image := fun y => (himage y).1
    defined := fun y => (himage y).2
    outside := fun q hq => by
      rw [hinv.outside q hq]
      exact hmake.entries q
    redirected := by
      rw [← hfiles, ← hcounts Counts.redirectedHom fun y => weight_of_file.1]
      rfl
    copied := by
      rw [← hfiles fun n => !Suffix.isSource n, ← hcounts Counts.copiedHom fun y =>
        weight_of_file.2.1]
      rfl
    skipped := hcounts Counts.skippedHom fun y => weight_of_file.2.2 }

theorem image_of_runs (h : m.Starts) {w w' : World} (hw : w.disk = m.disk) {c : Counts}
    (hruns : Runs m.rules [.make m.source m.target] w c w') (y : Place) :
    w'.disk.entryAt? (m.goal ++ y) = m.image? y ∧ m.Defined y :=
  ⟨(h.copies hw hruns).image y, (h.copies hw hruns).defined y⟩

/-- **Copying makes the mirror, whatever the order of the tasks.**  When the tasks of copying a
directory have run to their end, in any order, the target has exactly the image of the source:
what is not dropped is there, directories as directories, sources redirected for the directory that
they are in, other files as they are, and no temporary file.  Nothing else has changed but
directories on the way to the target.  The counts are the numbers of sources and of other files in
the target, and of entries dropped from a directory that was copied.  Copying with the tasks taking
turns is one of these orders. -/
theorem copies_of_runs (h : m.Starts) {w w' : World} (hw : w.disk = m.disk) {c : Counts} :
    (Runs m.rules [.make m.source m.target] w c w' → m.Copies w'.disk c) ∧
      (Act.Does (copyTree m.rules m.source m.target) w c w' → m.Copies w'.disk c) :=
  ⟨h.copies hw, fun hcopy => h.copies hw (runs_of_copyTree hcopy)⟩

namespace Sample

/-! A library with a source, a file, an ignored directory, a directory named like a source and a
file that stands beside it. -/

def rules : Rules where
  layout := { libraries := [⟨⟨[("name", .str "@s/lib")]⟩, ⟨.slash, ["lib"]⟩, "lib"⟩]
              root := ⟨.slash, ["out"]⟩ }
  strict := false
  ignored := []

/-- A source that imports a file of its library. -/
def importing : List Char := "import '@s/lib/d';".toList

/-- The source, redirected for the directory of the library. -/
def redirected : Bytes := rules.redirected ⟨.slash, ["out", "lib"]⟩ (Utf8.encode importing)

/-- What stands at first, and then what is made, one after the other. -/
def entries : List (Place × Entry) :=
  [(["lib"], .dir), (["lib", "a.ts"], .file (Utf8.encode importing)), (["lib", "d"], .file [255]),
    (["lib", "test"], .dir), (["lib", "x.js"], .file [98]), (["lib", "x.ts"], .dir),
    (["out"], .dir), (["out", "lib"], .dir), (["out", "lib", "x.ts"], .dir),
    (["out", "lib", "d"], .file [255]), (["out", "lib", "a.ts"], .file redirected)]

/-- The disk when `n` entries have been made. -/
def disk (n : Nat) : Disk := { entries := entries.take (6 + n), cwd := [], tag := "t" }

def mirror : Mirror where
  rules := rules
  disk := disk 0
  source := ⟨.slash, ["lib"]⟩
  target := ⟨.slash, ["out", "lib"]⟩

theorem starts : mirror.Starts := by
  refine .of_noDots (by decide +kernel) rfl (Disk.isTree_of_entries (by decide +kernel)) ?_
    (by decide +kernel) (by decide +kernel) (by decide +kernel)
  exact fun y hy => Disk.entryAt?_eq_none_of_keys (by decide +kernel) hy

theorem redirects_importing :
    rules.redirected? mirror.target (Utf8.encode importing) = some redirected :=
  Rules.redirected?_ascii ⟨by decide, by decide, by decide⟩ rfl (Utf8.isAscii_encode (by decide)) _

/-- What listing the library leaves: four names to copy, one is skipped. -/
def names : Progress where
  tasks := [.classify mirror.source mirror.target "a.ts",
    .classify mirror.source mirror.target "d",
    .compare mirror.source mirror.target "x.js" "x.ts",
    .classify mirror.source mirror.target "x.ts"]
  counts := { skipped := 1 }

theorem list_top (j : List Record) :
    Act.Does (Task.step rules (.list mirror.source mirror.target)) ⟨disk 2, j⟩ names
      ⟨disk 2, j⟩ := by
  have hsort : Text.sort ["a.ts", "d", "test", "x.js", "x.ts"] =
    ["a.ts", "d", "test", "x.js", "x.ts"] := Text.sort_of_sorted (by decide +kernel)
  exact Act.does_bind.mpr ⟨_, _, Act.does_ask.mpr ⟨congrArg Except.ok hsort, rfl⟩, rfl⟩

/-- Listing the directory in it leaves nothing to do. -/
theorem list_inner {d : Disk} (h : d.list (mirror.source.down ["x.ts"]) = .ok (Text.sort []))
    (j : List Record) : Act.Does (Task.step rules (.list (mirror.source.down ["x.ts"])
      (mirror.target.down ["x.ts"]))) ⟨d, j⟩ {} ⟨d, j⟩ := by
  rw [Text.sort_of_sorted .nil] at h
  exact Act.does_bind.mpr ⟨_, _, Act.does_ask.mpr ⟨h, rfl⟩, rfl⟩

theorem redirect_source {d : Disk} (h : d.read (mirror.source / ("a.ts" : Text)) =
    .ok (Utf8.encode importing)) :
    Act.Gives (Task.step rules (.redirect mirror.source mirror.target "a.ts")) d
      { tasks := [.write (mirror.target / ("a.ts" : Text)) redirected] } d :=
  gives_redirect h redirects_importing

/-- The names are copied from the last to the first. -/
theorem runs : ∃ j, Runs rules [.make mirror.source mirror.target] ⟨disk 0, []⟩ ⟨1, 1, 2⟩
    ⟨disk 5, j⟩ := by
  let a := Task.classify mirror.source mirror.target "a.ts"
  let d := Task.classify mirror.source mirror.target "d"
  let js := Task.compare mirror.source mirror.target "x.js" "x.ts"
  have hchange : (disk 4).writeFile (mirror.target / ("a.ts" : Text)) redirected =
    (disk 5, none) := rfl
  obtain ⟨j, hredirect⟩ := redirect_source (d := disk 4) rfl []
  obtain ⟨j', hwrite⟩ := gives_write (r := rules) hchange j
  refine ⟨j', ?_⟩
  refine @Runs.step _ [] [] _ { tasks := [.list mirror.source mirror.target] } ⟨1, 1, 2⟩ _
    ⟨disk 2, []⟩ _ rfl ?_
  refine @Runs.step _ [] [] _ _ ⟨1, 1, 1⟩ _ _ _ (list_top []) ?_
  refine @Runs.step _ [a, d, js] [] _
    { tasks := [.make (mirror.source.down ["x.ts"]) (mirror.target.down ["x.ts"])] } ⟨1, 1, 1⟩ _
    ⟨disk 2, []⟩ _ rfl ?_
  refine @Runs.step _ [a, d, js] [] _
    { tasks := [.list (mirror.source.down ["x.ts"]) (mirror.target.down ["x.ts"])] } ⟨1, 1, 1⟩ _
    ⟨disk 3, []⟩ _ rfl ?_
  refine @Runs.step _ [a, d, js] [] _ _ ⟨1, 1, 1⟩ _ _ _ (list_inner rfl []) ?_
  refine @Runs.step _ [a, d] [] _ { counts := { skipped := 1 } } ⟨1, 1, 0⟩ _ ⟨disk 3, []⟩ _ rfl ?_
  refine @Runs.step _ [a] [] _
    { tasks := [.copy (mirror.source.down ["d"]) (mirror.target.down ["d"])] } ⟨1, 1, 0⟩ _
    ⟨disk 3, []⟩ _ rfl ?_
  refine @Runs.step _ [a] [] _ { counts := { copied := 1 } } ⟨1, 0, 0⟩ _ ⟨disk 4, []⟩ _ rfl ?_
  refine @Runs.step _ [] [] _ { tasks := [.redirect mirror.source mirror.target "a.ts"] }
    ⟨1, 0, 0⟩ _ ⟨disk 4, []⟩ _ rfl ?_
  refine @Runs.step _ [] [] _ _ ⟨1, 0, 0⟩ _ ⟨disk 4, j⟩ _ hredirect ?_
  refine @Runs.step _ [] [] _ _ ⟨0, 0, 0⟩ _ _ _ hwrite ?_
  exact .done _

/-- The disk when the tasks have taken turns: the file is copied before the directory is made. -/
def turns (n : Nat) : Disk where
  entries := (disk 2).entries ++ ([(["out", "lib", "d"], .file [255]),
    (["out", "lib", "x.ts"], .dir), (["out", "lib", "a.ts"], .file redirected)] :
      List (Place × Entry)).take n
  cwd := []
  tag := "t"

theorem copies : Act.Gives (copyTree rules mirror.source mirror.target) (disk 0) ⟨1, 1, 2⟩
    (turns 3) := by
  have hmake : (disk 0).makeDirectories mirror.target = (disk 2, none) := rfl
  have hsource : (disk 2).isDirectory? (mirror.source / ("a.ts" : Text)) = .ok false := rfl
  have hfile : (disk 2).isDirectory? (mirror.source / ("d" : Text)) = .ok false := rfl
  have hdir : (disk 2).isDirectory? (mirror.source / ("x.ts" : Text)) = .ok true := rfl
  have hbeside : (disk 2).exists? (mirror.source / ("x.ts" : Text)) = .ok true := rfl
  have hcopy : (disk 2).copyFile (mirror.source / ("d" : Text)) (mirror.target / ("d" : Text)) =
    (turns 1, none) := rfl
  have hinner : (turns 1).makeDirectories (mirror.target / ("x.ts" : Text)) = (turns 2, none) := rfl
  have hwrite : (turns 2).writeFile (mirror.target / ("a.ts" : Text)) redirected =
    (turns 3, none) := rfl
  have hlist : Act.Gives (Task.step rules (.list (mirror.source / ("x.ts" : Text))
      (mirror.target / ("x.ts" : Text)))) (turns 3) {} (turns 3) := fun j => ⟨j, list_inner rfl j⟩
  have hwritten := gives_rounds (n := 16379)
    ((gives_write hwrite).mapM_cons (hlist.mapM_cons Act.gives_mapM_nil)) rfl
      (gives_rounds_nil _) rfl
  have hredirected := gives_rounds ((redirect_source rfl).mapM_cons
    ((gives_copy hcopy).mapM_cons ((gives_make hinner).mapM_cons Act.gives_mapM_nil)))
      rfl hwritten rfl
  have hclassified := gives_rounds
    ((gives_classify_source mirror.target hsource (by decide)).mapM_cons
      ((gives_classify mirror.target hfile (by decide)).mapM_cons
        ((gives_compare mirror.target "x.js" hbeside).mapM_cons
          ((gives_classify_directory mirror.target hdir).mapM_cons
            Act.gives_mapM_nil)))) rfl hredirected rfl
  have hlisted := gives_round (fun j => ⟨j, list_top j⟩) rfl hclassified rfl
  exact gives_round (gives_make hmake) rfl hlisted rfl

end Sample

theorem copies_of_runs_sample :
    Sample.mirror.Starts ∧
      (∃ j, Runs Sample.rules [.make Sample.mirror.source Sample.mirror.target]
        ⟨Sample.disk 0, []⟩ ⟨1, 1, 2⟩ ⟨Sample.disk 5, j⟩) ∧
      Sample.mirror.Copies (Sample.disk 5) ⟨1, 1, 2⟩ ∧
      (∃ j, Act.Does (copyTree Sample.rules Sample.mirror.source Sample.mirror.target)
        ⟨Sample.disk 0, []⟩ ⟨1, 1, 2⟩ ⟨Sample.turns 3, j⟩) ∧
      Sample.mirror.Copies (Sample.turns 3) ⟨1, 1, 2⟩ := by
  obtain ⟨j, hruns⟩ := Sample.runs
  obtain ⟨j', hcopy⟩ := Sample.copies []
  exact ⟨Sample.starts, ⟨j, hruns⟩, (copies_of_runs Sample.starts rfl).1 hruns, ⟨j', hcopy⟩,
    (copies_of_runs Sample.starts rfl).2 hcopy⟩

end Mirror

end Assembly

end UberPackage
