/-
  The course of copying.

  Tasks take steps in any order, and a step that fails ends the copying (`Assembly.Comes`).  Taking
  turns is such a course, whatever comes of it (`comes_of_copyTree`).

  As long as source and target are not inside one another, copying does not feed on what it makes
  (`Mirror.course_of_copy`): the source stays as it is, each task works on something of it, a
  directory is made only for a directory of it, and there are at most four steps for each of its
  entries.
-/
import Mathlib.Data.List.Dedup
import UberPackage.Proofs.Act.Failure
import UberPackage.Proofs.Assembly.Arrival

namespace UberPackage

/-! ## Directories -/

namespace Disk

/-- The directories at a place and below it, seen from there. -/
def directories (d : Disk) (top : Place) : List Place :=
  ((d.below top).filter fun y => d.entryAt? (top ++ y) = some .dir).dedup

/-- The directories at a place and below it that a disk has and an earlier one did not have. -/
def made (d d' : Disk) (top : Place) : List Place :=
  (d'.directories top).filter (· ∉ d.directories top)

variable {d d' : Disk} {top y : Place}

theorem mem_directories (htop : top ≠ []) : y ∈ d.directories top ↔
    d.entryAt? (top ++ y) = some .dir := by
  rw [directories, List.mem_dedup, List.mem_filter, decide_eq_true_iff,
    mem_below_iff (List.append_ne_nil_of_left_ne_nil htop y)]
  exact and_iff_right_of_imp fun h => by rw [h]; rfl

theorem mem_made (htop : top ≠ []) : y ∈ d.made d' top ↔
    d'.entryAt? (top ++ y) = some .dir ∧ d.entryAt? (top ++ y) ≠ some .dir := by
  rw [made, List.mem_filter, decide_eq_true_iff, mem_directories htop, mem_directories htop]

theorem nodup_made (d d' : Disk) (top : Place) : (d.made d' top).Nodup :=
  (List.nodup_dedup _).filter _

end Disk

namespace Assembly

/-! ## Courses -/

/-- The copying comes from tasks to others by steps of single tasks; a step that fails ends it. -/
inductive Comes (r : Rules) : List Task → World → Nat → List Task → World → Prop where
  | here (ts : List Task) (w : World) : Comes r ts w 0 ts w
  | step {before after us : List Task} {t : Task} {p : Progress} {n : Nat} {w v w' : World}
      (h : Act.Does (t.step r) w p v) (rest : Comes r (before ++ p.tasks ++ after) v n us w') :
      Comes r (before ++ t :: after) w (n + 1) us w'
  | fail {before after : List Task} {t : Task} {f : Failure} {w v : World}
      (h : Act.Fails (t.step r) w f v) :
      Comes r (before ++ t :: after) w 1 [] v

theorem Comes.of_gives {r : Rules} {before after us : List Task} {t : Task} {p : Progress} {n : Nat}
    {d d' e : Disk} (h : Act.Gives (t.step r) d p d')
    (rest : ∀ j, ∃ j', Comes r (before ++ p.tasks ++ after) ⟨d', j⟩ n us ⟨e, j'⟩)
    (j : List Record) :
    ∃ j', Comes r (before ++ t :: after) ⟨d, j⟩ (n + 1) us ⟨e, j'⟩ := by
  obtain ⟨j₁, hstep⟩ := h j
  obtain ⟨j₂, hrest⟩ := rest j₁
  exact ⟨j₂, .step hstep hrest⟩

section Turns

variable {r : Rules} {n : Nat} {ts us : List Task} {w v w' : World} {c : Counts} {f : Failure}

theorem comes_of_runs (h : Runs r ts w c w') : ∃ n, Comes r ts w n [] w' := by
  induction h with
  | done w => exact ⟨0, .here [] w⟩
  | step h _ ih =>
    obtain ⟨n, hn⟩ := ih
    exact ⟨n + 1, .step h hn⟩

theorem comes_of_mapM (done : List Task) {ps : List Progress}
    (h : Act.Does (ts.mapM (Task.step r)) w ps v) (rest : Comes r
      (done ++ (Progress.join ps).tasks) v n us w') : ∃ k, Comes r (done ++ ts) w k us w' := by
  induction ts generalizing done ps w with
  | nil =>
    rw [List.mapM_nil] at h
    obtain ⟨rfl, rfl⟩ := Act.does_pure.mp h
    exact ⟨n, rest⟩
  | cons t ts ih =>
    obtain ⟨p, u, qs, ht, hts, rfl⟩ := Act.does_mapM_cons.mp h
    rw [show (Progress.join (p :: qs)).tasks = p.tasks ++ (Progress.join qs).tasks from rfl,
      ← List.append_assoc] at rest
    obtain ⟨k, hk⟩ := ih _ hts rest
    exact ⟨k + 1, .step ht hk⟩

theorem comes_of_mapM_fails (done : List Task) (h : Act.Fails (ts.mapM (Task.step r)) w f w') :
    ∃ k, Comes r (done ++ ts) w k [] w' := by
  induction ts generalizing done w with
  | nil =>
    rw [List.mapM_nil] at h
    exact absurd h Act.not_fails_pure
  | cons t ts ih =>
    rw [List.mapM_cons] at h
    rcases Act.fails_bind.mp h with h | ⟨p, v, ht, h⟩
    · exact ⟨1, .fail h⟩
    · rcases Act.fails_bind.mp h with h | ⟨ps, v', -, h⟩
      · obtain ⟨k, hk⟩ := ih (done ++ p.tasks) h
        exact ⟨k + 1, .step ht hk⟩
      · exact absurd h Act.not_fails_pure

theorem comes_of_rounds_fails (h : Act.Fails (rounds r n ts) w f w') :
    ∃ k us, Comes r ts w k us w' := by
  induction n generalizing ts w with
  | zero =>
    cases ts with
    | nil => exact absurd h Act.not_fails_pure
    | cons t ts =>
      obtain ⟨-, rfl⟩ := Act.fails_throw.mp h
      exact ⟨0, _, .here _ w⟩
  | succ n ih =>
    cases ts with
    | nil => exact absurd h Act.not_fails_pure
    | cons t ts =>
      rw [rounds] at h
      rcases Act.fails_bind.mp h with h | ⟨ps, v, hps, h⟩
      · obtain ⟨k, hk⟩ := comes_of_mapM_fails [] h
        exact ⟨k, [], hk⟩
      · rcases Act.fails_bind.mp h with h | ⟨c, v', -, h⟩
        · obtain ⟨k, us, hk⟩ := ih h
          obtain ⟨k', hk'⟩ := comes_of_mapM [] hps hk
          exact ⟨k', us, hk'⟩
        · exact absurd h Act.not_fails_pure

/-- Copying a directory is a course of its first task, whatever comes of it. -/
theorem comes_of_copyTree (r : Rules) (source target : Path) (w : World) :
    ∃ n ts, Comes r [.make source target] w n ts ((copyTree r source target).runIn w).2 := by
  rcases Act.does_or_fails (copyTree r source target) w with ⟨c, v, h⟩ | ⟨f, v, h⟩
  · obtain ⟨n, hn⟩ := comes_of_runs (runs_of_copyTree h)
    rw [Act.Does] at h
    rw [h]
    exact ⟨n, [], hn⟩
  · obtain ⟨n, ts, hn⟩ := comes_of_rounds_fails h
    rw [Act.Fails] at h
    rw [h]
    exact ⟨n, ts, hn⟩

end Turns

/-! ## What a course keeps to -/

/-- The file or the directory that the step of a task reads or lists. -/
def Task.reads? : Task → Option Path
  | .list source _ | .copy source _ => some source
  | .redirect source _ name => some (source / name)
  | .make _ _ | .compare _ _ _ _ | .classify _ _ _ | .write _ _ => none

namespace Mirror

/-- Directories are new in the target only where the source has directories. -/
def OpensAlike (m : Mirror) (d d' : Disk) : Prop :=
  ∀ y, d'.entryAt? (m.target.parts ++ y) = some .dir →
    d.entryAt? (m.target.parts ++ y) = some .dir ∨ m.original? y = some .dir

variable {m : Mirror} {g : Region} {t : Task}

instance : IsPreorder Disk m.OpensAlike where
  refl _ _ := Or.inl
  trans _ _ _ h h' y hy := (h' y hy).elim (h y) Or.inr

/-- At a place and below there are no more new directories in the target than directories in the
source. -/
theorem length_made_le (h : m.Separate) {d d' : Disk} (hopens : m.OpensAlike d d') (x : Place) :
    (d.made d' (m.target.parts ++ x)).length ≤
      (m.disk.directories (m.source.parts ++ x)).length := by
  have htarget := List.append_ne_nil_of_left_ne_nil h.apart.ne_nil x
  have hsource := List.append_ne_nil_of_left_ne_nil h.apart.symm.ne_nil x
  refine ((Disk.nodup_made _ _ _).subperm fun y hy => ?_).length_le
  obtain ⟨hnew, hold⟩ := (Disk.mem_made htarget).mp hy
  rw [List.append_assoc] at hnew hold
  rw [Disk.mem_directories hsource, List.append_assoc, ← h.top_eq]
  exact (hopens (x ++ y) hnew).resolve_left hold

/-- What a task reads is something of the source that is kept. -/
theorem Works.reads (h : m.Separate) (hw : m.Works t g) {p : Path} (hp : t.reads? = some p) :
    ∃ y, p = m.source.down y ∧ m.keeps y = true ∧ (m.original? y).isSome = true := by
  cases hw with
  | make | compare | classify | write => cases hp
  | list hk he => exact ⟨_, (Option.some.inj hp).symm, hk, by rw [he]; rfl⟩
  | @redirect x n bytes hk he =>
    have hn : n.IsFileName := h.isFileName (y := x ++ [n]) (by rw [he]; rfl) n
      (List.mem_append_right _ List.mem_cons_self)
    refine ⟨_, ?_, hk, by rw [he]; rfl⟩
    rw [← Option.some.inj hp, Path.append_fileName hn, Path.down_down]
  | copy hk he => exact ⟨_, (Option.some.inj hp).symm, hk, by rw [he]; rfl⟩

theorem Works.under (h : m.Separate) (hw : m.Works t g) : t.Under m.source m.target := by
  cases hw with
  | make hk he => exact .make (h.isFileName (by rw [he]; rfl))
  | list hk he => exact .list (h.isFileName (by rw [he]; rfl))
  | compare hk he hi hc =>
    have hx := h.isFileName he
    exact .compare hx (Suffix.isFileName_sourceCounterpart?
      (hx _ (List.mem_append_right _ List.mem_cons_self)) hc)
  | classify hk he => exact .classify (h.isFileName he)
  | redirect hk he hs => exact .redirect (h.isFileName (by rw [he]; rfl))
  | write hk he hs ho => exact .write (h.isFileName (by rw [he]; rfl)) _
  | copy hk he hs => exact .copy (h.isFileName (by rw [he]; rfl))

/-- The change of a task makes directories for directories of the source alone. -/
theorem Works.opensAlike (h : m.Separate) (hw : m.Works t g) (d : Disk) :
    m.OpensAlike d (t.change d).1 := by
  -- a file that is written is no directory
  have hcases : ∀ {d' : Disk} {place : Place}, ((∃ bytes, Disk.Writes d d' place bytes) ∨
      d'.tag = d.tag ∧ ∀ q, d'.entryAt? q = d.entryAt? q) → m.OpensAlike d d' := by
    rintro d' place (⟨bytes, hwrites⟩ | ⟨-, hsame⟩) y hy
    · rw [hwrites.entries] at hy
      split at hy
      · cases hy
      · exact Or.inl hy
    · exact Or.inl ((hsame _).symm.trans hy)
  cases hw with
  | list | compare | classify | redirect => exact fun _ => Or.inl
  | write hk he hs ho => exact hcases (Disk.writeFile_cases (h.target_down (by rw [he]; rfl)) _)
  | copy hk he hs => exact hcases (Disk.copyFile_cases (h.target_down (by rw [he]; rfl)) _)
  | @make x hk he =>
    intro y hy
    rcases (Disk.opens_makeDirectories d (m.target.down x)).entries
      (m.target.parts ++ y) with hsame | ⟨-, -, hway⟩
    · exact Or.inl (hsame.symm.trans hy)
    · -- what is made on the way stands above the place of the task
      have hxy : y <+: x :=
        (List.prefix_append_right_inj _).mp
          ((Disk.way_resolved (h.target_down (by rw [he]; rfl))).mp hway)
      by_cases hne : y = x
      · exact Or.inr (hne ▸ he)
      · exact Or.inr (h.dir_of_prefix hxy hne (by rw [he]; rfl))

/-- Whatever comes of a step, the source stays and the target opens alike. -/
theorem Works.step_keeps (h : m.Separate) (hw : m.Works t g) {w : World} (hd : w.disk.IsFileTree)
    (hsame : m.SameSource w.disk) :
    m.SameSource ((t.step m.rules).runIn w).2.disk ∧
    m.OpensAlike w.disk ((t.step m.rules).runIn w).2.disk := by
  have hgrows :=
    (@within_step m.source m.target (m.target.parts <+: ·) (· <+: m.target.parts) m.rules h.target
      (fun _ => id) (fun _ => Or.inr) t (hw.under h) w hd).1
  exact ⟨h.sameSource hsame hgrows,
    (within_change_step m.rules h.target (hw.under h) (fun d _ => hw.opensAlike h d) w hd).1⟩

/-- **Copying does not feed on what it makes**: in whatever order tasks take their steps, the source
stays as it is, a directory is new only for one of the source, the tasks that are left work on
regions of the source, and the steps are no more than the tasks cost. -/
theorem course (h : m.Separate) {ts us : List Task} {n : Nat} {w w' : World}
    (hcomes : Comes m.rules ts w n us w') (hd : w.disk.IsFileTree) (hsame : m.SameSource w.disk)
    {qs : List (Task × Region)} (htasks : qs.map Prod.fst = ts)
    (hworks : ∀ q ∈ qs, m.Works q.1 q.2) :
    m.SameSource w'.disk ∧ m.OpensAlike w.disk w'.disk ∧ (∀ t ∈ us, ∃ g, m.Works t g) ∧
      n ≤ (qs.map m.cost).sum := by
  induction hcomes generalizing qs with
  | here ts w =>
    refine ⟨hsame, fun _ => Or.inl, fun t ht => ?_, Nat.zero_le _⟩
    obtain ⟨q, hq, rfl⟩ := List.mem_map.mp (htasks ▸ ht)
    exact ⟨q.2, hworks q hq⟩
  | @step before after us t p n w v w' hstep rest ih =>
    obtain ⟨as, g, bs, rfl, has, hbs⟩ := exists_region htasks
    have hw : m.Works t g := hworks (t, g) (List.mem_append_right _ List.mem_cons_self)
    obtain ⟨qs, hleaves⟩ := leaves_of_step h hd hsame hw hstep
    have hkeeps := hw.step_keeps h hd hsame
    rw [show (t.step m.rules).runIn w = (.ok p, v) from hstep] at hkeeps
    obtain ⟨-, hv, -⟩ :=
      (@within_step m.source m.target (m.target.parts <+: ·) (· <+: m.target.parts) m.rules
      h.target (fun _ => id) (fun _ => Or.inr) t (hw.under h)).does hd hstep
    have hnew : (as ++ qs ++ bs).map Prod.fst = before ++ p.tasks ++ after := by
      rw [List.map_append, List.map_append, has, hleaves.tasks, hbs]
    obtain ⟨hsource, hopens, hleft, hn⟩ := ih hv hkeeps.1 hnew fun q hq => by
      rcases List.mem_append.mp hq with hq | hq
      · rcases List.mem_append.mp hq with hq | hq
        · exact hworks q (List.mem_append_left _ hq)
        · exact hleaves.works q hq
      · exact hworks q (List.mem_append_right _ (List.mem_cons_of_mem _ hq))
    refine ⟨hsource, IsTrans.trans _ _ _ hkeeps.2 hopens, hleft, ?_⟩
    have hless := hleaves.less
    rw [List.map_append, List.map_append, List.sum_append, List.sum_append] at hn
    rw [List.map_append, List.sum_append, List.map_cons, List.sum_cons]
    omega
  | @fail before after t f w v hfails =>
    obtain ⟨as, g, bs, rfl, -, -⟩ := exists_region htasks
    have hw : m.Works t g := hworks (t, g) (List.mem_append_right _ List.mem_cons_self)
    have hkeeps := hw.step_keeps h hd hsame
    rw [show (t.step m.rules).runIn w = (.error f, v) from hfails] at hkeeps
    refine ⟨hkeeps.1, hkeeps.2, fun t ht => absurd ht List.not_mem_nil, ?_⟩
    have hpos : 0 < m.cost (t, g) := Nat.add_pos_left t.stages_pos _
    rw [List.map_append, List.sum_append, List.map_cons, List.sum_cons]
    omega

/-- The course of copying a directory. -/
theorem course_of_copy (h : m.Separate) (htop : m.original? [] = some .dir) {u v : World}
    (hu : u.disk = m.disk) {n : Nat} {ts : List Task}
    (hcomes : Comes m.rules [.make m.source m.target] u n ts v) :
    m.SameSource v.disk ∧ m.OpensAlike u.disk v.disk ∧ (∀ t ∈ ts, ∃ g, m.Works t g) ∧
      n ≤ 4 * (m.disk.below m.source.parts).length + 2 := by
  obtain ⟨hsource, hopens, hleft, hn⟩ := course h hcomes (by rw [hu]; exact h.tree)
    (fun y => by rw [hu, original?, h.top_eq])
    (show [(Task.make m.source m.target, Region.mk [] false)].map Prod.fst = _ from rfl)
    fun q hq => List.mem_singleton.mp hq ▸ works_make htop
  refine ⟨hsource, hopens, hleft, ?_⟩
  have hpopulation := m.population_le ⟨[], true⟩
  rw [h.top_eq] at hpopulation
  rw [List.map_singleton, List.sum_singleton, cost, Task.stages] at hn
  dsimp only at hn
  omega

end Mirror

end Assembly

end UberPackage
