/-
  A step splits a region.

  Each task of a mirror works on a region of the target (`Mirror.Works`).  A step that succeeds
  splits the region (`Mirror.Splits`): parts of it are left to new tasks and still empty, the rest
  is as in the image, nothing outside of it has changed, and the counts of the region are those of
  the step and of what is left (`Mirror.splits_of_step`).
-/
import UberPackage.Proofs.Assembly.Step
import UberPackage.Proofs.Suffix

namespace UberPackage

namespace Assembly

/-! ## Tasks and their regions -/

namespace Mirror

/-- What is taken for granted of a mirror: its source is a directory of files and directories, and
source and target are not inside one another. -/
structure Sound (m : Mirror) : Prop where
  distinct : m.disk.Distinct
  leads : m.disk.Leads m.source
  units : m.source.HasNameUnits
  tree : m.disk.IsTree m.top
  notInside : ¬ m.top <+: m.goal
  notAbove : ¬ m.goal <+: m.top

/-- The task works on the region of the target. -/
inductive Works (m : Mirror) : Task → Region → Prop where
  | make {x : Place} (hk : m.keeps x = true) (he : m.original? x = some .dir) :
      Works m (.make (m.source.down x) (m.target.down x)) ⟨x, false⟩
  | list {x : Place} (hk : m.keeps x = true) (he : m.original? x = some .dir) :
      Works m (.list (m.source.down x) (m.target.down x)) ⟨x, true⟩
  | compare {x : Place} {n c : Text} (hk : m.keeps x = true)
      (he : (m.original? (x ++ [n])).isSome = true) (hi : m.rules.ignores n = false)
      (hc : Suffix.sourceCounterpart? n = some c) :
      Works m (.compare (m.source.down x) (m.target.down x) n c) ⟨x ++ [n], false⟩
  | classify {x : Place} {n : Text} (hk : m.keeps (x ++ [n]) = true)
      (he : (m.original? (x ++ [n])).isSome = true) :
      Works m (.classify (m.source.down x) (m.target.down x) n) ⟨x ++ [n], false⟩
  | redirect {x : Place} {n : Text} {bytes : Bytes} (hk : m.keeps (x ++ [n]) = true)
      (he : m.original? (x ++ [n]) = some (.file bytes)) (hs : Suffix.isSource n = true) :
      Works m (.redirect (m.source.down x) (m.target.down x) n) ⟨x ++ [n], false⟩
  | write {x : Place} {n : Text} {bytes out : Bytes} (hk : m.keeps (x ++ [n]) = true)
      (he : m.original? (x ++ [n]) = some (.file bytes)) (hs : Suffix.isSource n = true)
      (ho : m.rules.redirected? (m.target.down x) bytes = some out) :
      Works m (.write (m.target.down (x ++ [n])) out) ⟨x ++ [n], false⟩
  | copy {x : Place} {n : Text} {bytes : Bytes} (hk : m.keeps (x ++ [n]) = true)
      (he : m.original? (x ++ [n]) = some (.file bytes)) (hs : Suffix.isSource n = false) :
      Works m (.copy (m.source.down (x ++ [n])) (m.target.down (x ++ [n]))) ⟨x ++ [n], false⟩

/-- The first task of a copy works on all of the target. -/
theorem works_make {m : Mirror} (h : m.original? [] = some .dir) :
    m.Works (.make m.source m.target) ⟨[], false⟩ := by
  have hmake : m.Works (.make (m.source.down []) (m.target.down [])) ⟨[], false⟩ :=
    .make m.keeps_nil h
  rwa [Path.down_nil, Path.down_nil] at hmake

/-- What stays so on the disk while the source is copied. -/
structure At (m : Mirror) (d : Disk) : Prop where
  cwd : d.cwd = m.disk.cwd
  distinct : d.Distinct
  source : ∀ y, d.entryAt? (m.top ++ y) = m.original? y
  leads : d.Leads m.source
  ready : d.Leads m.target

/-- A step splits a region: some of it is left to new tasks, the rest is done. -/
structure Splits (m : Mirror) (d d' : Disk) (g : Region) (p : Progress)
    (qs : List (Task × Region)) : Prop where
  tasks : qs.map Prod.fst = p.tasks
  works : ∀ q ∈ qs, m.Works q.1 q.2
  apart : qs.Pairwise fun q q' => q.2.Apart q'.2
  inside : ∀ q ∈ qs, ∀ y, q.2.Covers y → g.Covers y
  empty : ∀ q ∈ qs, ∀ y, q.2.Covers y → d'.entryAt? (m.goal ++ y) = none
  done : ∀ y, g.Covers y → (∀ q ∈ qs, ¬ q.2.Covers y) →
    d'.entryAt? (m.goal ++ y) = m.image? y ∧ m.Defined y
  frame : ∀ q, (∀ y, g.Covers y → q ≠ m.goal ++ y) → d'.entryAt? q = d.entryAt? q
  stays : m.At d'
  tally : m.tally g = p.counts + (qs.map fun q => m.tally q.2).sum

variable {m : Mirror} {d : Disk}

theorem original?_child_isSome (hm : m.Sound) {x z : Place} {n : Text}
    (h : (m.original? (x ++ n :: z)).isSome = true) : (m.original? (x ++ [n])).isSome = true := by
  cases z with
  | nil => exact h
  | cons k z =>
    have hx : (m.disk.entryAt? (m.top ++ (x ++ [n] ++ k :: z))).isSome = true := by
      rwa [List.append_assoc x [n] (k :: z)]
    rw [original?, hm.tree.dir_of_prefix (List.cons_ne_nil k z) hx]
    rfl

theorem fileNames (hm : m.Sound) {y : Place} (hy : (m.original? y).isSome = true) :
    ∀ n ∈ y, Text.IsFileName n :=
  hm.tree.fileNames hy

/-- Source and target have no place in common. -/
theorem Sound.top_ne_goal (hm : m.Sound) (y z : Place) : m.top ++ y ≠ m.goal ++ z := by
  intro h
  rcases List.append_eq_append_iff.mp h with ⟨a, ha, -⟩ | ⟨a, ha, -⟩
  · exact hm.notInside ⟨a, ha.symm⟩
  · exact hm.notAbove ⟨a, ha.symm⟩

namespace At

theorem placeOf (h : m.At d) (p : Path) : d.placeOf p = m.disk.placeOf p := by
  rw [Disk.placeOf, Disk.placeOf, Disk.startOf, Disk.startOf, h.cwd]

theorem tree (h : m.At d) (hm : m.Sound) : d.IsTree m.top where
  names y n hy := hm.tree.names y n (by
    rw [List.append_assoc, h.source] at hy
    rw [List.append_assoc]
    exact hy)
  dirs y n hy := by
    rw [h.source]
    refine hm.tree.dirs y n ?_
    rw [List.append_assoc, h.source] at hy
    rw [List.append_assoc]
    exact hy

theorem source_down (h : m.At d) (hm : m.Sound) {y : Place} (hy : (m.original? y).isSome = true) :
    d.placeOf (m.source.down y) = m.top ++ y := by
  rw [Disk.placeOf_down (fileNames hm hy), h.placeOf]
  rfl

theorem target_down (h : m.At d) (hm : m.Sound) {y : Place} (hy : (m.original? y).isSome = true) :
    d.placeOf (m.target.down y) = m.goal ++ y := by
  rw [Disk.placeOf_down (fileNames hm hy), h.placeOf]
  rfl

/-- Looking for a name in a directory of the source. -/
theorem probe (h : m.At d) (hm : m.Sound) {x : Place} (hdir : m.original? x = some .dir) {n : Text}
    (hn : n.IsFileName) {e : Option Entry} (hp : d.probe (m.source.down x / n) = .ok e) :
    e = m.original? (x ++ [n]) := by
  rw [Path.append_fileName hn, Path.down_down] at hp
  have hplace : d.placeOf m.source = m.top := h.placeOf m.source
  have htree : d.IsTree (d.placeOf m.source) := hplace ▸ h.tree hm
  have hd : d.entryAt? (d.placeOf m.source ++ x) = some .dir := by rw [hplace, h.source, hdir]
  rw [Disk.probe_down h.leads hm.units htree hd hn hp, hplace, List.append_assoc, h.source]

end At

/-- The directory that a kept name is in. -/
theorem dir_of_child (hm : m.Sound) {x : Place} {n : Text}
    (he : (m.original? (x ++ [n])).isSome = true) : m.original? x = some .dir := by
  refine hm.tree.dirs x n ?_
  rw [List.append_assoc]
  exact he

end Mirror

/-! ## Splitting -/

namespace Mirror

section Split

variable {m : Mirror} {d d' : Disk} {g : Region}

/-- The task goes on under another name. -/
theorem Splits.same {t : Task} (h : m.At d) (hw : m.Works t g)
    (hempty : ∀ y, g.Covers y → d.entryAt? (m.goal ++ y) = none) :
    m.Splits d d g { tasks := [t] } [(t, g)] where
  tasks := rfl
  works q hq := by
    rw [List.mem_singleton.mp hq]
    exact hw
  apart := List.pairwise_singleton _ _
  inside q hq y hy := by
    rw [List.mem_singleton.mp hq] at hy
    exact hy
  empty q hq y hy := by
    rw [List.mem_singleton.mp hq] at hy
    exact hempty y hy
  done y hy hnot := absurd hy (hnot _ (List.mem_singleton.mpr rfl))
  frame _ _ := rfl
  stays := h
  tally := by
    rw [List.map_singleton, List.sum_singleton]
    exact (zero_add _).symm

/-- Nothing of the region is left to do. -/
theorem Splits.finish {c : Counts}
    (hdone : ∀ y, g.Covers y → d'.entryAt? (m.goal ++ y) = m.image? y ∧ m.Defined y)
    (hframe : ∀ q, (∀ y, g.Covers y → q ≠ m.goal ++ y) → d'.entryAt? q = d.entryAt? q)
    (hstays : m.At d') (ht : m.tally g = c) : m.Splits d d' g { counts := c } [] where
  tasks := rfl
  works q hq := absurd hq List.not_mem_nil
  apart := List.Pairwise.nil
  inside q hq := absurd hq List.not_mem_nil
  empty q hq := absurd hq List.not_mem_nil
  done y hy _ := hdone y hy
  frame := hframe
  stays := hstays
  tally := by
    rw [ht, List.map_nil, List.sum_nil]
    exact (add_zero _).symm

/-- The region is left as it is: nothing of it is copied. -/
theorem Splits.skip (h : m.At d) {c : Counts}
    (hempty : ∀ y, g.Covers y → d.entryAt? (m.goal ++ y) = none)
    (hnone : ∀ y, g.Covers y → m.image? y = none ∧ m.Defined y) (ht : m.tally g = c) :
    m.Splits d d g { counts := c } [] := by
  refine .finish (fun y hy => ?_) (fun _ _ => rfl) h ht
  rw [hempty y hy, (hnone y hy).1]
  exact ⟨rfl, (hnone y hy).2⟩

/-- What is below a name that is not kept is not kept. -/
theorem image?_below {x y : Place} (hx : m.keeps x = false) (hxy : x <+: y) :
    m.image? y = none ∧ m.Defined y := by
  refine m.image?_of_not_keeps ?_
  cases hy : m.keeps y with
  | false => rfl
  | true =>
    rw [m.keeps_of_prefix hxy hy] at hx
    exact absurd hx (by simp)

/-- Nothing stands below a file. -/
theorem Sound.original?_below_file (hm : m.Sound) {x z : Place} {bytes : Bytes}
    (he : m.original? x = some (.file bytes)) (hz : z ≠ []) : m.original? (x ++ z) = none := by
  cases hs : m.original? (x ++ z) with
  | none => rfl
  | some e =>
    have hdir :=
      hm.tree.dir_of_prefix hz (show (m.original? (x ++ z)).isSome = true by rw [hs]; rfl)
    rw [← original?, he] at hdir
    exact absurd hdir (by simp)

/-- A file has been put in the place of a name. -/
theorem Splits.put (hm : m.Sound) (h : m.At d) {x : Place} {n : Text}
    {bytes out : Bytes} {c : Counts} (he : m.original? (x ++ [n]) = some (.file bytes))
    (hempty : ∀ y, Region.Covers ⟨x ++ [n], false⟩ y → d.entryAt? (m.goal ++ y) = none)
    (himage : m.image? (x ++ [n]) = some (.file out) ∧ m.Defined (x ++ [n]))
    (hw : Disk.Writes d d' (m.goal ++ (x ++ [n])) out) (ht : m.tally ⟨x ++ [n], false⟩ = c) :
    m.Splits d d' ⟨x ++ [n], false⟩ { counts := c } [] := by
  refine .finish (fun y hy => ?_) (fun q hq => ?_) ?_ ht
  · rw [hw.entries]
    by_cases hyx : y = x ++ [n]
    · rw [if_pos (by rw [hyx]), hyx, himage.1]
      exact ⟨rfl, himage.2⟩
    · rw [if_neg fun h => hyx (List.append_cancel_left h), hempty y hy]
      obtain ⟨z, rfl⟩ := hy.1
      have hz : z ≠ [] := fun h => hyx (by rw [h, List.append_nil])
      have hi := m.image?_of_none (hm.original?_below_file he hz)
      exact ⟨hi.1.symm, hi.2⟩
  · rw [hw.entries, if_neg (hq _ (Region.covers_self _))]
  · exact {
      cwd := hw.cwd.trans h.cwd
      distinct := hw.distinct h.distinct
      source := fun y => by rw [hw.entries, if_neg (hm.top_ne_goal y _), h.source]
      leads := hw.leads h.leads
      ready := hw.leads h.ready }

/-- All on the way to a place in the target stands already, down to its parent. -/
theorem At.dir_of_way (hm : m.Sound) (h : m.At d) {x : Place} (hx : (m.original? x).isSome = true)
    (hparents : ∀ y, y <+: x → y ≠ x → d.entryAt? (m.goal ++ y) = some .dir) {q : Place}
    (hq : d.Way (m.target.down x) q) : q = m.goal ++ x ∨ d.entryAt? q = some .dir := by
  have hup : ∀ y, y <+: x → m.goal ++ y = m.goal ++ x ∨ d.entryAt? (m.goal ++ y) = some .dir := by
    intro y hy
    by_cases hyx : y = x
    · exact Or.inl (by rw [hyx])
    · exact Or.inr (hparents y hy hyx)
  rcases Disk.way_down (fileNames hm hx) hq with hq | ⟨y, hy, rfl⟩
  · rcases h.ready.dir_of_way hq with hq | hq
    · rw [hq, h.placeOf, ← goal, ← List.append_nil m.goal, List.append_assoc]
      exact hup [] (List.nil_prefix)
    · exact Or.inr hq
  · rw [h.placeOf]
    exact hup y hy

/-- Making a directory in the target adds nothing but the directory. -/
theorem At.entryAt?_of_makes (hm : m.Sound) (h : m.At d) {x : Place}
    (hx : (m.original? x).isSome = true)
    (hparents : ∀ y, y <+: x → y ≠ x → d.entryAt? (m.goal ++ y) = some .dir)
    (hd : Disk.Makes d d' (m.target.down x)) {q : Place} (hq : q ≠ m.goal ++ x) :
    d'.entryAt? q = d.entryAt? q := by
  rcases hd.entries q with hq' | ⟨hnone, -, hway⟩
  · exact hq'
  · rcases h.dir_of_way hm hx hparents hway with hx | hs
    · exact absurd hx hq
    · rw [hnone] at hs
      exact absurd hs (by simp)

/-- A directory itself counts nothing. -/
theorem tally_inner {x : Place} (hk : m.keeps x = true) (he : m.original? x = some .dir) :
    m.tally ⟨x, false⟩ = m.tally ⟨x, true⟩ := by
  refine m.tally_congr fun y => ?_
  by_cases hyx : y = x
  · have hw : m.weight y = 0 := by
      rw [hyx, weight, if_pos hk, he]
      rfl
    rw [hw, ite_self, ite_self]
  · rw [if_congr (Region.covers_inner_of_ne hyx) rfl rfl]

/-- A directory has been made. -/
theorem Splits.make (hm : m.Sound) (h : m.At d) {x : Place} (hk : m.keeps x = true)
    (he : m.original? x = some .dir)
    (hempty : ∀ y, Region.Covers ⟨x, false⟩ y → d.entryAt? (m.goal ++ y) = none)
    (hparents : ∀ y, y <+: x → y ≠ x → d.entryAt? (m.goal ++ y) = some .dir)
    (hd : Disk.Makes d d' (m.target.down x)) :
    m.Splits d d' ⟨x, false⟩ { tasks := [.list (m.source.down x) (m.target.down x)] }
      [(.list (m.source.down x) (m.target.down x), ⟨x, true⟩)] := by
  have hsome : (m.original? x).isSome = true := by rw [he]; rfl
  have hplace : d.placeOf (m.target.down x) = m.goal ++ x := h.target_down hm hsome
  have hentries : ∀ q, q ≠ m.goal ++ x → d'.entryAt? q = d.entryAt? q :=
    fun _ => h.entryAt?_of_makes hm hsome hparents hd
  have hopen : Disk.Opens d d' (d.Way (m.target.down x)) := hd.toOpens
  refine ⟨rfl, ?works, List.pairwise_singleton _ _, ?inside, ?empty, ?done, ?frame, ?stays, ?tally⟩
  case works =>
    intro q hq
    rw [List.mem_singleton.mp hq]
    exact .list hk he
  case inside =>
    intro q hq y hy
    rw [List.mem_singleton.mp hq] at hy
    exact (Region.covers_inner_iff.mp hy).1
  case empty =>
    intro q hq y hy
    rw [List.mem_singleton.mp hq] at hy
    obtain ⟨hy, hne⟩ := Region.covers_inner_iff.mp hy
    rw [hentries _ fun h => hne (List.append_cancel_left h)]
    exact hempty y hy
  case done =>
    intro y hy hnot
    have hyx : y = x := by
      by_contra hne
      exact hnot _ (List.mem_singleton.mpr rfl) (Region.covers_inner_iff.mpr ⟨hy, hne⟩)
    have hi := m.image?_of_dir hk he
    rw [hyx, ← hplace, hd.dir]
    exact ⟨hi.1.symm, hi.2⟩
  case frame => exact fun q hq => hentries q (hq x (Region.covers_self x))
  case stays =>
    exact {
      cwd := hopen.cwd.trans h.cwd
      distinct := hopen.distinct h.distinct
      source := fun y => by rw [hentries _ (hm.top_ne_goal y x), h.source]
      leads := hopen.leads h.leads
      ready := hopen.leads h.ready }
  case tally =>
    rw [List.map_singleton, List.sum_singleton, tally_inner hk he]
    exact (zero_add _).symm

/-- The task that a name in a directory begins with, and its region. -/
def child (m : Mirror) (x : Place) (n : Text) : List (Task × Region) :=
  (ofName m.rules (m.source.down x) (m.target.down x) n).tasks.map fun t => (t, ⟨x ++ [n], false⟩)

theorem mem_child {x : Place} {n : Text} {q : Task × Region} (h : q ∈ m.child x n) :
    q.2 = ⟨x ++ [n], false⟩ ∧
      q.1 ∈ (ofName m.rules (m.source.down x) (m.target.down x) n).tasks := by
  obtain ⟨t, ht, rfl⟩ := List.mem_map.mp h
  exact ⟨rfl, ht⟩

/-- A name is skipped, or it has one task that counts all that the name does. -/
theorem child_cases {x : Place} {n : Text} (hk : m.keeps x = true)
    (he : (m.original? (x ++ [n])).isSome = true) :
    (m.child x n = [] ∧ m.keeps (x ++ [n]) = false ∧
        (ofName m.rules (m.source.down x) (m.target.down x) n).counts = { skipped := 1 }) ∨
      ∃ t, m.child x n = [(t, ⟨x ++ [n], false⟩)] ∧ m.Works t ⟨x ++ [n], false⟩ ∧
        (ofName m.rules (m.source.down x) (m.target.down x) n).counts = 0 := by
  rw [child, ofName]
  cases hi : m.rules.ignores n with
  | true => exact Or.inl ⟨rfl, by rw [keeps_concat, Rules.drops, hi, hk]; rfl, rfl⟩
  | false =>
    refine Or.inr ?_
    cases hc : Suffix.sourceCounterpart? n with
    | some c => exact ⟨_, rfl, .compare hk he hi hc, rfl⟩
    | none =>
      refine ⟨_, rfl, .classify ?_ he, rfl⟩
      rw [keeps_concat, Rules.drops, hi, hc, hk]
      rfl

theorem tally_child (hm : m.Sound) {x : Place} {n : Text} (hk : m.keeps x = true)
    (he : (m.original? (x ++ [n])).isSome = true) :
    m.tally ⟨x ++ [n], false⟩ = (ofName m.rules (m.source.down x) (m.target.down x) n).counts +
      ((m.child x n).map fun q => m.tally q.2).sum := by
  rcases child_cases hk he with ⟨hnil, hn, hc⟩ | ⟨t, hone, -, hc⟩
  · rw [hnil, hc, List.map_nil, List.sum_nil, add_zero]
    exact tally_dropped hm.distinct hk hn he
  · rw [hone, hc, List.map_singleton, List.sum_singleton, zero_add]

/-- The names in a directory have the tasks that listing it leaves. -/
theorem tasks_children (m : Mirror) (x : Place) (names : List Text) :
    (names.flatMap (m.child x)).map Prod.fst =
      (Progress.join (names.map (ofName m.rules (m.source.down x) (m.target.down x)))).tasks := by
  rw [Progress.join, List.map_flatMap, List.flatMap_map]
  refine List.flatMap_congr fun n _ => ?_
  rw [child, List.map_map]
  exact List.map_id _

theorem works_children {x : Place} (hk : m.keeps x = true) {names : List Text}
    (hmem : ∀ n ∈ names, (m.original? (x ++ [n])).isSome = true) :
    ∀ q ∈ names.flatMap (m.child x), m.Works q.1 q.2 := by
  intro q hq
  obtain ⟨n, hn, hq⟩ := List.mem_flatMap.mp hq
  rcases child_cases hk (hmem n hn) with ⟨hnil, -⟩ | ⟨t, hone, hw, -⟩
  · rw [hnil] at hq
    exact absurd hq List.not_mem_nil
  · rw [hone, List.mem_singleton] at hq
    rw [hq]
    exact hw

theorem covers_of_child {x : Place} {names : List Text} {q : Task × Region}
    (hq : q ∈ names.flatMap (m.child x)) {y : Place} (hy : q.2.Covers y) :
    Region.Covers ⟨x, true⟩ y := by
  obtain ⟨n, -, hq⟩ := List.mem_flatMap.mp hq
  rw [(mem_child hq).1] at hy
  exact Region.covers_inner.mpr ⟨n, Region.covers_child.mp hy⟩

theorem pairwise_children {x : Place} (hk : m.keeps x = true) {names : List Text}
    (hnodup : names.Nodup) (hmem : ∀ n ∈ names, (m.original? (x ++ [n])).isSome = true) :
    (names.flatMap (m.child x)).Pairwise fun q q' => q.2.Apart q'.2 := by
  rw [List.pairwise_flatMap]
  refine ⟨fun n hn => ?_, hnodup.imp fun {n k} hnk q hq q' hq' => ?_⟩
  · rcases child_cases hk (hmem n hn) with ⟨hnil, -⟩ | ⟨t, hone, -⟩
    · rw [hnil]
      exact List.Pairwise.nil
    · rw [hone]
      exact List.pairwise_singleton _ _
  · rw [(mem_child hq).1, (mem_child hq').1]
    exact Region.apart_children hnk

/-- What no task of a directory's names works on is not in the image. -/
theorem image?_of_no_child (hm : m.Sound) {x y : Place} (hk : m.keeps x = true) {names : List Text}
    (hmem : ∀ n, n ∈ names ↔ (m.original? (x ++ [n])).isSome = true)
    (hy : Region.Covers ⟨x, true⟩ y) (hnot : ∀ q ∈ names.flatMap (m.child x), ¬ q.2.Covers y) :
    m.image? y = none ∧ m.Defined y := by
  obtain ⟨n, z, rfl⟩ := Region.covers_inner.mp hy
  cases hs : (m.original? (x ++ n :: z)).isSome with
  | false => exact m.image?_of_none (by simpa using hs)
  | true =>
    have hn := original?_child_isSome hm hs
    rcases child_cases hk hn with ⟨-, hdrop, -⟩ | ⟨t, hone, -⟩
    · exact image?_below hdrop ⟨z, by rw [List.append_assoc]; rfl⟩
    · refine absurd (Region.covers_child.mpr ⟨z, rfl⟩)
        (hnot (t, ⟨x ++ [n], false⟩) (List.mem_flatMap.mpr ⟨n, (hmem n).mpr hn, ?_⟩))
      rw [hone]
      exact List.mem_singleton.mpr rfl

theorem tally_children (hm : m.Sound) {x : Place} (hk : m.keeps x = true) {names : List Text}
    (hmem : ∀ n ∈ names, (m.original? (x ++ [n])).isSome = true) :
    (names.map fun n => m.tally ⟨x ++ [n], false⟩).sum =
      (Progress.join (names.map (ofName m.rules (m.source.down x) (m.target.down x)))).counts +
        ((names.flatMap (m.child x)).map fun q => m.tally q.2).sum := by
  induction names with
  | nil => exact (add_zero _).symm
  | cons n ns ih =>
    rw [List.map_cons, List.sum_cons, ih fun k hk => hmem k (List.mem_cons_of_mem _ hk),
      tally_child hm hk (hmem n List.mem_cons_self), List.flatMap_cons, List.map_append,
      List.sum_append]
    exact add_add_add_comm _ _ _ _

/-- A directory has been listed. -/
theorem Splits.list (hm : m.Sound) (h : m.At d) {x : Place} (hk : m.keeps x = true)
    (hempty : ∀ y, Region.Covers ⟨x, true⟩ y → d.entryAt? (m.goal ++ y) = none) {names : List Text}
    (hnodup : names.Nodup) (hmem : ∀ n, n ∈ names ↔ (m.original? (x ++ [n])).isSome = true) :
    m.Splits d d ⟨x, true⟩
      (.join (names.map (ofName m.rules (m.source.down x) (m.target.down x))))
      (names.flatMap (m.child x)) where
  tasks := m.tasks_children x names
  works := works_children hk fun n hn => (hmem n).mp hn
  apart := pairwise_children hk hnodup fun n hn => (hmem n).mp hn
  inside _ hq _ hy := covers_of_child hq hy
  empty _ hq y hy := hempty y (covers_of_child hq hy)
  done y hy hnot := by
    have himage := image?_of_no_child hm hk hmem hy hnot
    rw [hempty y hy]
    exact ⟨himage.1.symm, himage.2⟩
  frame _ _ := rfl
  stays := h
  tally := by
    rw [m.tally_names hm.tree x hnodup hmem]
    exact tally_children hm hk fun n hn => (hmem n).mp hn

/-- **A step splits the region of its task.** -/
theorem splits_of_step (hm : m.Sound) {t : Task} {w w' : World} {p : Progress} (h : m.At w.disk)
    (hw : m.Works t g) (hempty : ∀ y, g.Covers y → w.disk.entryAt? (m.goal ++ y) = none)
    (hparents : ∀ y, y <+: g.place → y ≠ g.place → w.disk.entryAt? (m.goal ++ y) = some .dir)
    (hstep : Act.Does (t.step m.rules) w p w') : ∃ qs, m.Splits w.disk w'.disk g p qs := by
  cases hw with
  | make hk he =>
    obtain ⟨hd, rfl⟩ := Task.make_does hstep
    exact ⟨_, .make hm h hk he hempty hparents hd⟩
  | @list x hk he =>
    obtain ⟨rfl, names, hl, rfl⟩ := Task.list_does hstep
    obtain ⟨-, -, rfl⟩ := Disk.list_eq_ok hl
    rw [h.source_down hm (by rw [he]; rfl)]
    refine ⟨_, .list hm h hk hempty (Disk.nodup_namesIn h.distinct _) fun n => ?_⟩
    rw [Disk.mem_namesIn, List.append_assoc, h.source]
  | @compare x n c hk he hi hc =>
    obtain ⟨rfl, b, hb, rfl⟩ := Task.compare_does hstep
    obtain ⟨e, hprobe, rfl⟩ := Disk.exists?_eq_ok hb
    have hn : n.IsFileName :=
      fileNames hm he n (List.mem_append_right _ (List.mem_singleton.mpr rfl))
    have hfound :=
      h.probe hm (dir_of_child hm he) (Suffix.isFileName_sourceCounterpart? hn hc) hprobe
    have hdrops : m.rules.drops m.disk (m.top ++ x) n = e.isSome := by
      rw [Rules.drops, hi, hc, hfound, original?, ← List.append_assoc]
      rfl
    cases hs : e.isSome with
    | true =>
      have hnot : m.keeps (x ++ [n]) = false := by rw [keeps_concat, hk, hdrops, hs]; rfl
      exact ⟨_, .skip h hempty (fun y hy => image?_below hnot hy.1)
        (tally_dropped hm.distinct hk hnot he)⟩
    | false =>
      have hkeep : m.keeps (x ++ [n]) = true := by rw [keeps_concat, hk, hdrops, hs]; rfl
      exact ⟨_, .same h (.classify hkeep he) hempty⟩
  | @classify x n hk he =>
    obtain ⟨rfl, b, hb, rfl⟩ := Task.classify_does hstep
    obtain ⟨e, hprobe, rfl⟩ := Disk.isDirectory?_eq_ok hb
    have hn : n.IsFileName :=
      fileNames hm he n (List.mem_append_right _ (List.mem_singleton.mpr rfl))
    have hfound := h.probe hm (dir_of_child hm he) hn hprobe
    rw [Path.append_fileName hn, Path.append_fileName hn, Path.down_down, Path.down_down]
    obtain ⟨e', he'⟩ := Option.isSome_iff_exists.mp he
    rw [hfound, he']
    cases e' with
    | dir => exact ⟨_, .same h (.make hk he') hempty⟩
    | file bytes =>
      cases hs : Suffix.isSource n with
      | true => exact ⟨_, .same h (.redirect hk he' hs) hempty⟩
      | false => exact ⟨_, .same h (.copy hk he' hs) hempty⟩
  | @redirect x n bytes hk he hs =>
    obtain ⟨hdisk, bytes', out, hread, hout, rfl⟩ := Task.redirect_does hstep
    have hsome : (m.original? (x ++ [n])).isSome = true := by rw [he]; rfl
    have hn : n.IsFileName :=
      fileNames hm hsome n (List.mem_append_right _ (List.mem_singleton.mpr rfl))
    rw [Path.append_fileName hn, Path.down_down] at hread
    have hbytes := (Disk.read_eq_ok hread).2
    rw [h.source_down hm hsome, h.source, he] at hbytes
    cases hbytes
    rw [← hdisk, Path.append_fileName hn, Path.down_down]
    exact ⟨_, .same h (.write hk he hs hout) hempty⟩
  | @write x n bytes out hk he hs ho =>
    obtain ⟨hwrites, rfl⟩ := Task.write_does hstep
    rw [h.target_down hm (by rw [he]; rfl)] at hwrites
    have ht := tally_file hm.distinct hm.tree hk he
    rw [if_pos hs] at ht
    exact ⟨_, .put hm h he hempty (m.image?_of_source hk he hs ho) hwrites ht⟩
  | @copy x n bytes hk he hs =>
    have hsome : (m.original? (x ++ [n])).isSome = true := by rw [he]; rfl
    have hplace := h.source_down hm hsome
    obtain ⟨⟨bytes', hbytes, hwrites⟩, rfl⟩ :=
      Task.copy_does (by rw [hplace, h.source, he]; rfl) hstep
    rw [hplace, h.source, he] at hbytes
    cases hbytes
    rw [h.target_down hm hsome] at hwrites
    have ht := tally_file hm.distinct hm.tree hk he
    rw [hs] at ht
    exact ⟨_, .put hm h he hempty (m.image?_of_other hk he hs) hwrites ht⟩

end Split

end Mirror

end Assembly

end UberPackage
