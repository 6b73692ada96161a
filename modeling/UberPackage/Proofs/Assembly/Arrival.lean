/-
  What is kept arrives.

  While a library is copied, its own directory stays as it is.  So each step leaves less to do
  (`Mirror.leaves_of_step`): a task costs as many steps as there are for its region, four for an
  entry, and what the step leaves costs less.  None of them forgets a file: one that is kept is
  awaited as long as a task works on a region that covers it, and when no task is left it stands in
  the target (`Mirror.arrives`), whatever else stood there before.
-/
import Mathlib.Algebra.BigOperators.Ring.List
import UberPackage.Proofs.Assembly.Run
import UberPackage.Proofs.Assembly.Frame

namespace UberPackage

namespace Assembly

namespace Mirror

/-- Source and target are resolved paths on a file tree, and not inside one another. -/
structure Separate (m : Mirror) : Prop where
  tree : m.disk.IsFileTree
  source : m.source.IsResolved
  target : m.target.IsResolved
  apart : Place.Unrelated m.target.parts m.source.parts

/-- The source is as it was. -/
def SameSource (m : Mirror) (d : Disk) : Prop :=
  ∀ y, d.entryAt? (m.source.parts ++ y) = m.original? y

variable {m : Mirror}

namespace Separate

theorem top_eq (h : m.Separate) : m.top = m.source.parts := Disk.placeOf_resolved h.source

theorem goal_eq (h : m.Separate) : m.goal = m.target.parts := Disk.placeOf_resolved h.target

/-- Changes of the target leave the source as it was. -/
theorem sameSource (h : m.Separate) {d d' : Disk} (hd : m.SameSource d)
    (hg : Disk.Grows (m.target.parts <+: ·) (· <+: m.target.parts) d d') : m.SameSource d' := by
  intro y
  rw [← hd y]
  rcases hg.entries (m.source.parts ++ y) with he | hin | ⟨habove, -, -⟩
  · exact he
  · exact absurd hin (h.apart.below y).1
  · exact absurd habove (h.apart.below y).2

theorem isFileName (h : m.Separate) {y : Place} (hy : (m.original? y).isSome = true) :
    ∀ n ∈ y, Text.IsFileName n :=
  fun n hn => h.tree.fileNames hy n (List.mem_append_right _ hn)

theorem isFileName_concat (h : m.Separate) {x : Place} {n : Text}
    (hx : (m.original? (x ++ [n])).isSome = true) : n.IsFileName :=
  h.isFileName hx n (List.mem_append_right _ List.mem_cons_self)

theorem source_down (h : m.Separate) {x : Place} (hx : (m.original? x).isSome = true) :
    (m.source.down x).IsResolved :=
  h.source.down_fileNames (h.isFileName hx)

theorem target_down (h : m.Separate) {x : Place} (hx : (m.original? x).isSome = true) :
    (m.target.down x).IsResolved :=
  h.target.down_fileNames (h.isFileName hx)

/-- Above a place of the source are directories. -/
theorem dir_of_prefix (h : m.Separate) {x y : Place} (hxy : x <+: y) (hne : x ≠ y)
    (hy : (m.original? y).isSome = true) : m.original? x = some .dir :=
  h.tree.dir_of_prefix ((List.prefix_append_right_inj _).mpr hxy)
    (fun he => hne (List.append_cancel_left he)) hy

theorem isSome_of_prefix (h : m.Separate) {x y : Place} (hxy : x <+: y)
    (hy : (m.original? y).isSome = true) : (m.original? x).isSome = true := by
  by_cases hne : x = y
  · rwa [hne]
  · rw [h.dir_of_prefix hxy hne hy]
    rfl

end Separate

/-- A task works on a region that covers the place. -/
def Awaits (m : Mirror) (ts : List Task) (y : Place) : Prop :=
  ∃ t ∈ ts, ∃ g, m.Works t g ∧ g.Covers y

/-- The place has a file in the target. -/
def Arrived (m : Mirror) (d : Disk) (y : Place) : Prop :=
  ∃ bytes, d.entryAt? (m.target.parts ++ y) = some (.file bytes)

/-! ## What a step leaves -/

end Mirror

/-- How many steps a file can take, or a directory until its names are known. -/
@[simp]
def Task.stages : Task → Nat
  | .compare _ _ _ _ => 4
  | .classify _ _ _ => 3
  | .make _ _ | .redirect _ _ _ => 2
  | .list _ _ | .write _ _ | .copy _ _ => 1

theorem Task.stages_pos (t : Task) : 0 < t.stages := by cases t <;> simp

theorem Task.stages_le (t : Task) : t.stages ≤ 4 := by cases t <;> simp

namespace Mirror

variable {m : Mirror}

/-- How many steps a task can take in its region, with all that it leaves to do there. -/
def cost (m : Mirror) (q : Task × Region) : Nat := q.1.stages + 4 * m.population ⟨q.2.place, true⟩

/-- What a step leaves of a task in its region: tasks that cost less together, and no kept file of
the region is forgotten. -/
structure Leaves (m : Mirror) (d : Disk) (t : Task) (g : Region) (p : Progress)
    (qs : List (Task × Region)) : Prop where
  tasks : qs.map Prod.fst = p.tasks
  works : ∀ q ∈ qs, m.Works q.1 q.2
  less : (qs.map m.cost).sum < m.cost (t, g)
  arrives : ∀ y bytes, m.keeps y = true → m.original? y = some (.file bytes) → g.Covers y →
    m.Arrived d y ∨ ∃ q ∈ qs, q.2.Covers y

section Step

variable {d : Disk} {g g' : Region} {t t' : Task} {w w' : World} {p : Progress} {y : Place}
  {bytes : Bytes}

theorem Leaves.nothing {c : Counts}
    (h : ∀ y bytes, m.keeps y = true → m.original? y = some (.file bytes) → g.Covers y →
      m.Arrived d y) :
    m.Leaves d t g { counts := c } [] where
  tasks := rfl
  works _ hq := absurd hq List.not_mem_nil
  less := Nat.lt_add_right _ t.stages_pos
  arrives y bytes hk he hy := Or.inl (h y bytes hk he hy)

theorem Leaves.one (hw : m.Works t' g') (hplace : g'.place = g.place) (hless : t'.stages < t.stages)
    (h : ∀ y bytes, m.original? y = some (.file bytes) → g.Covers y → g'.Covers y) :
    m.Leaves d t g { tasks := [t'] } [(t', g')] where
  tasks := rfl
  works q hq := by
    rw [List.mem_singleton.mp hq]
    exact hw
  less := by
    rw [List.map_singleton, List.sum_singleton, cost, cost, hplace]
    exact Nat.add_lt_add_right hless _
  arrives y bytes _ he hy := Or.inr ⟨_, List.mem_cons_self, h y bytes he hy⟩

theorem Leaves.same (hw : m.Works t' g) (hless : t'.stages < t.stages) :
    m.Leaves d t g { tasks := [t'] } [(t', g)] := .one hw rfl hless fun _ _ _ => id

/-- A name costs no more than its region has entries, four steps each. -/
theorem cost_child (h : m.Separate) {x : Place} {n : Text} (hk : m.keeps x = true)
    (he : (m.original? (x ++ [n])).isSome = true) :
    ((m.child x n).map m.cost).sum ≤ 4 * m.population ⟨x ++ [n], false⟩ := by
  rcases child_cases hk he with ⟨hnil, -⟩ | ⟨t, hone, -⟩
  · rw [hnil]
    exact Nat.zero_le _
  · rw [hone, List.map_singleton, List.sum_singleton, cost,
      m.population_place h.tree.distinct (by simp) he]
    have := t.stages_le
    dsimp only
    omega

/-- A directory costs what its names do. -/
theorem Leaves.list (h : m.Separate) {x : Place} (hk : m.keeps x = true) {names : List Text}
    (hnodup : names.Nodup) (hmem : ∀ n, n ∈ names ↔ (m.original? (x ++ [n])).isSome = true) :
    m.Leaves d (.list (m.source.down x) (m.target.down x)) ⟨x, true⟩
      (.join (names.map (ofName m.rules (m.source.down x) (m.target.down x))))
        (names.flatMap (m.child x)) where
  tasks := m.tasks_children x names
  works := works_children hk fun n hn => (hmem n).mp hn
  less := by
    have hsum : ((names.flatMap (m.child x)).map m.cost).sum =
        (names.map fun n => ((m.child x n).map m.cost).sum).sum := by
      rw [List.map_flatMap, List.flatMap_def, List.sum_flatten, List.map_map]
      rfl
    have hnames :
        m.population ⟨x, true⟩ = (names.map fun n => m.population ⟨x ++ [n], false⟩).sum :=
      m.total_names _ (h.tree.isTree _) x hnodup hmem
    calc ((names.flatMap (m.child x)).map m.cost).sum
        ≤ (names.map fun n => 4 * m.population ⟨x ++ [n], false⟩).sum :=
          hsum.trans_le (List.sum_le_sum fun n hn => cost_child h hk ((hmem n).mp hn))
      _ = 4 * m.population ⟨x, true⟩ := by rw [List.sum_map_mul_left, hnames]
      _ < m.cost (.list (m.source.down x) (m.target.down x), ⟨x, true⟩) :=
        Nat.lt_add_of_pos_left Nat.one_pos
  arrives y bytes hky he hy := by
    obtain ⟨n, z, rfl⟩ := Region.covers_inner.mp hy
    have hway : x ++ [n] <+: x ++ n :: z := ⟨z, by rw [List.append_assoc]; rfl⟩
    have hn := h.isSome_of_prefix hway (by rw [he]; rfl)
    rcases child_cases hk hn with ⟨-, hnot, -⟩ | ⟨t, hone, -⟩
    · rw [m.keeps_of_prefix hway hky] at hnot
      cases hnot
    · refine Or.inr ⟨(t, ⟨x ++ [n], false⟩), List.mem_flatMap.mpr ⟨n, (hmem n).mpr hn, ?_⟩,
        Region.covers_child.mpr ⟨z, rfl⟩⟩
      rw [hone]
      exact List.mem_cons_self

/-- A file covers nothing but itself. -/
theorem Separate.eq_of_covers (h : m.Separate) {x : Place} {bytes' : Bytes}
    (hx : m.original? x = some (.file bytes')) (hy : m.original? y = some (.file bytes))
    (hc : Region.Covers ⟨x, false⟩ y) : x = y := by
  by_contra hne
  have hdir := h.dir_of_prefix hc.1 hne (by rw [hy]; rfl)
  rw [hx] at hdir
  cases hdir

/-- A file that has been written has arrived, and is all of its region. -/
theorem Leaves.put (h : m.Separate) {x : Place} {bytes' out : Bytes} {e : Disk} {c : Counts}
    (hx : m.original? x = some (.file bytes')) (hw : Disk.Writes e d (m.target.parts ++ x) out) :
    m.Leaves d t ⟨x, false⟩ { counts := c } [] := .nothing fun y bytes _ he hy => by
  refine ⟨out, ?_⟩
  rw [← h.eq_of_covers hx he hy]
  exact (hw.entries _).trans (if_pos rfl)

/-- Looking for the original of a declaration file tells whether the file is kept. -/
theorem keeps_of_exists? (h : m.Separate) (hd : w.disk.IsFileTree) (hsame : m.SameSource w.disk)
    {x : Place} {n c : Text} (hk : m.keeps x = true) (hx : (m.original? (x ++ [n])).isSome = true)
    (hi : m.rules.ignores n = false) (hc : Suffix.sourceCounterpart? n = some c) {b : Bool}
    (hb : w.disk.exists? (m.source.down x / c) = .ok b) : m.keeps (x ++ [n]) = !b := by
  have hcn := Suffix.isFileName_sourceCounterpart? (h.isFileName_concat hx) hc
  have hdir := h.dir_of_prefix (List.prefix_append x [n]) (by simp) hx
  rw [Path.append_fileName hcn, Path.down_down] at hb
  rw [hd.exists? (h.source.down fun k hmem => ?_) hb]
  · rw [keeps_concat, hk, Rules.drops, hi, hc, Option.any_some, h.top_eq]
    show _ = !(w.disk.entryAt? (m.source.parts ++ (x ++ [c]))).isSome
    rw [hsame, original?, h.top_eq, ← List.append_assoc]
    rfl
  · rcases List.mem_append.mp hmem with hmem | hmem
    · exact (h.isFileName (by rw [hdir]; rfl) k hmem).isComponent
    · rw [List.mem_singleton.mp hmem]
      exact hcn.isComponent

/-- **A step leaves less to do, and forgets no file.** -/
theorem leaves_of_step (h : m.Separate) (hd : w.disk.IsFileTree) (hsame : m.SameSource w.disk)
    (hw : m.Works t g) (hstep : Act.Does (t.step m.rules) w p w') :
    ∃ qs, m.Leaves w'.disk t g p qs := by
  cases hw with
  | @make x hkx hx =>
    obtain ⟨-, rfl⟩ := Task.make_does hstep
    refine ⟨_, .one (.list hkx hx) rfl (by simp) fun y bytes he hy => ⟨hy.1, fun _ hne => ?_⟩⟩
    rw [show y = x from hne, hx] at he
    cases he
  | @list x hkx hx =>
    obtain ⟨rfl, names, hl, rfl⟩ := Task.list_does hstep
    obtain ⟨-, rfl⟩ := Disk.list_resolved (h.source_down (by rw [hx]; rfl)) hl
    refine ⟨_, .list h hkx (Disk.nodup_namesIn hd.distinct _) fun n => Disk.mem_namesIn.trans ?_⟩
    show (w.disk.entryAt? (m.source.parts ++ x ++ [n])).isSome = true ↔ _
    rw [List.append_assoc, hsame]
  | @compare x n c hkx hx hi hc =>
    obtain ⟨rfl, b, hb, rfl⟩ := Task.compare_does hstep
    have hkeeps := keeps_of_exists? h hd hsame hkx hx hi hc hb
    cases b with
    | true =>
      refine ⟨_, .nothing fun y bytes hk _ hy => ?_⟩
      rw [m.keeps_of_prefix hy.1 hk] at hkeeps
      cases hkeeps
    | false => exact ⟨_, .same (.classify hkeeps hx) (by simp)⟩
  | @classify x n hkn hx =>
    obtain ⟨rfl, b, hb, rfl⟩ := Task.classify_does hstep
    have hn := h.isFileName_concat hx
    rw [Path.append_fileName hn, Path.down_down] at hb
    have hb' := hd.isDirectory? (h.source_down hx) hb
    obtain ⟨e, hentry⟩ := Option.isSome_iff_exists.mp hx
    rw [show w.disk.entryAt? (m.source.down (x ++ [n])).parts =
      some e from (hsame _).trans hentry] at hb'
    rw [hb', Path.append_fileName hn, Path.append_fileName hn, Path.down_down, Path.down_down]
    cases e with
    | dir => exact ⟨_, .same (.make hkn hentry) (by simp)⟩
    | file bytes' =>
      cases hs : Suffix.isSource n with
      | true => exact ⟨_, .same (.redirect hkn hentry hs) (by simp)⟩
      | false => exact ⟨_, .same (.copy hkn hentry hs) (by simp)⟩
  | @redirect x n bytes' hkn hx hs =>
    obtain ⟨hdisk, read, out, hread, hout, rfl⟩ := Task.redirect_does hstep
    have hxsome : (m.original? (x ++ [n])).isSome = true := by rw [hx]; rfl
    have hn := h.isFileName_concat hxsome
    rw [Path.append_fileName hn, Path.down_down] at hread
    have hentry := Disk.read_resolved (h.source_down hxsome) hread
    rw [show w.disk.entryAt? (m.source.down (x ++ [n])).parts = some (.file bytes') from
      (hsame _).trans hx] at hentry
    cases hentry
    rw [Path.append_fileName hn, Path.down_down]
    exact ⟨_, .same (.write hkn hx hs hout) (by simp)⟩
  | @write x n bytes' out hkn hx hs ho =>
    obtain ⟨hwrites, rfl⟩ := Task.write_does hstep
    rw [Disk.placeOf_resolved (h.target_down (by rw [hx]; rfl))] at hwrites
    exact ⟨_, .put h hx hwrites⟩
  | @copy x n bytes' hkn hx hs =>
    have hxsome : (m.original? (x ++ [n])).isSome = true := by rw [hx]; rfl
    have hsource :
        w.disk.entryAt? (w.disk.placeOf (m.source.down (x ++ [n]))) = some (.file bytes') := by
      rw [Disk.placeOf_resolved (h.source_down hxsome)]
      exact (hsame _).trans hx
    obtain ⟨⟨out, -, hwrites⟩, rfl⟩ := Task.copy_does (by rw [hsource]; rfl) hstep
    rw [Disk.placeOf_resolved (h.target_down hxsome)] at hwrites
    exact ⟨_, .put h hx hwrites⟩

/-- A step leaves a kept file awaited, or it has arrived. -/
theorem arrives_or_awaited (h : m.Separate) (hd : w.disk.IsFileTree) (hsame : m.SameSource w.disk)
    (hk : m.keeps y = true) (he : m.original? y = some (.file bytes)) (hw : m.Works t g)
    (hy : g.Covers y) (hstep : Act.Does (t.step m.rules) w p w') :
    m.Arrived w'.disk y ∨ m.Awaits p.tasks y := by
  obtain ⟨qs, hleaves⟩ := leaves_of_step h hd hsame hw hstep
  refine (hleaves.arrives y bytes hk he hy).imp_right fun ⟨q, hq, hc⟩ => ?_
  exact ⟨q.1, hleaves.tasks ▸ List.mem_map_of_mem hq, q.2, hleaves.works q hq, hc⟩

end Step

/-! ## Arriving -/

/-- A kept file that is awaited has arrived when no task is left, in whatever order tasks take their
steps. -/
theorem arrived_of_runs (h : m.Separate) {y : Place} {bytes : Bytes} (hk : m.keeps y = true)
    (he : m.original? y = some (.file bytes)) {ts : List Task} {w w' : World} {c : Counts}
    (hruns : Runs m.rules ts w c w') (hd : w.disk.IsFileTree) (hsame : m.SameSource w.disk)
    (hunder : ∀ t ∈ ts, t.Under m.source m.target) (hy : m.Arrived w.disk y ∨ m.Awaits ts y) :
    m.Arrived w'.disk y := by
  induction hruns with
  | done w =>
    rcases hy with hy | ⟨t, ht, -⟩
    · exact hy
    · exact absurd ht List.not_mem_nil
  | @step before after t p c w v w' hstep rest ih =>
    have ht : t ∈ before ++ t :: after := List.mem_append_right _ List.mem_cons_self
    obtain ⟨hgrows, hv, hnew⟩ := (@within_step m.source m.target (m.target.parts <+: ·)
      (· <+: m.target.parts) m.rules h.target (fun _ => id) (fun _ => Or.inr) t
        (hunder t ht)).does hd hstep
    refine ih hv (h.sameSource hsame hgrows) (fun t' ht' => ?_) ?_
    · rcases List.mem_append.mp ht' with ht' | ht'
      · rcases List.mem_append.mp ht' with ht' | ht'
        · exact hunder t' (List.mem_append_left _ ht')
        · exact hnew t' ht'
      · exact hunder t' (List.mem_append_right _ (List.mem_cons_of_mem _ ht'))
    · rcases hy with ⟨bytes', hy⟩ | ⟨t', ht', g, hw, hc⟩
      · exact Or.inl (hgrows.file hy)
      · rcases List.mem_append.mp ht' with ht' | ht'
        · exact Or.inr ⟨t', List.mem_append_left _ (List.mem_append_left _ ht'), g, hw, hc⟩
        · rcases List.mem_cons.mp ht' with rfl | ht'
          · refine (arrives_or_awaited h hd hsame hk he hw hc hstep).imp_right ?_
            rintro ⟨t'', ht'', g', hw', hc'⟩
            exact ⟨t'', List.mem_append_left _ (List.mem_append_right _ ht''), g', hw', hc'⟩
          · exact Or.inr ⟨t', List.mem_append_right _ ht', g, hw, hc⟩

/-- **A file that is kept arrives**: when its directory has been copied, it stands in the target. -/
theorem arrives (h : m.Separate) (htop : m.original? [] = some .dir) {y : Place} {bytes : Bytes}
    (hk : m.keeps y = true) (he : m.original? y = some (.file bytes)) {w w' : World} {c : Counts}
    (hw : w.disk = m.disk) (hcopy : Act.Does (copyTree m.rules m.source m.target) w c w') :
    m.Arrived w'.disk y := by
  have hstart : m.Awaits [.make m.source m.target] y :=
    ⟨_, List.mem_cons_self, _, works_make htop, List.nil_prefix,
      fun hi => absurd hi Bool.false_ne_true⟩
  refine arrived_of_runs h hk he (runs_of_copyTree hcopy) (by rw [hw]; exact h.tree) (fun y => ?_)
    (fun t ht => ?_) (Or.inr hstart)
  · rw [hw, original?, h.top_eq]
  · rw [List.mem_singleton.mp ht]
    exact under_make m.source m.target

end Mirror

end Assembly

end UberPackage
