/-
  Copying in any order.

  Tasks run in any order (`Assembly.Runs`): each step takes one of the tasks that are left.
  `Mirror.Inv` holds whenever a step has been taken: the tasks work on regions apart from one
  another, which are still empty, all else is as in the image, and what has been counted and what is
  left to count is the count of the whole source.

  When no task is left, the target is the image and the counts are complete
  (`Mirror.copies_of_runs`).  Taking turns, as `Assembly.copyTree` does, is one of the orders
  (`runs_of_copyTree`).
-/
import Mathlib.Tactic.Abel
import UberPackage.Proofs.Assembly.Split

namespace UberPackage

namespace Assembly

/-- The tasks run to their end, in some order: each step takes a task and puts what it leaves in
its place. -/
inductive Runs (r : Rules) : List Task → World → Counts → World → Prop where
  | done (w : World) : Runs r [] w {} w
  | step {before after : List Task} {t : Task} {p : Progress} {c : Counts} {w v w' : World}
      (h : Act.Does (t.step r) w p v) (rest : Runs r (before ++ p.tasks ++ after) v c w') :
      Runs r (before ++ t :: after) w (p.counts + c) w'

/-! ## Taking turns -/

theorem runs_of_mapM {r : Rules} (done : List Task) {ts : List Task} {ps : List Progress}
    {w v w' : World} {c : Counts} (h : Act.Does (ts.mapM (Task.step r)) w ps v)
    (rest : Runs r (done ++ (Progress.join ps).tasks) v c w') :
    Runs r (done ++ ts) w ((Progress.join ps).counts + c) w' := by
  induction ts generalizing done ps w with
  | nil =>
    rw [List.mapM_nil] at h
    obtain ⟨rfl, rfl⟩ := Act.does_pure.mp h
    show Runs r (done ++ []) w (0 + c) w'
    rw [zero_add]
    exact rest
  | cons t ts ih =>
    rw [List.mapM_cons, Act.does_bind] at h
    obtain ⟨p, u, ht, h⟩ := h
    rw [Act.does_bind] at h
    obtain ⟨qs, u', hts, h⟩ := h
    obtain ⟨rfl, rfl⟩ := Act.does_pure.mp h
    have htasks : (Progress.join (p :: qs)).tasks = p.tasks ++ (Progress.join qs).tasks := rfl
    have hcounts : (Progress.join (p :: qs)).counts = p.counts + (Progress.join qs).counts := rfl
    rw [htasks, ← List.append_assoc] at rest
    rw [hcounts, add_assoc]
    exact .step ht (ih _ hts rest)

theorem runs_of_rounds {r : Rules} {n : Nat} {ts : List Task} {w w' : World} {c : Counts}
    (h : Act.Does (rounds r n ts) w c w') : Runs r ts w c w' := by
  induction n generalizing ts w c with
  | zero =>
    cases ts with
    | nil =>
      rw [rounds] at h
      obtain ⟨rfl, rfl⟩ := Act.does_pure.mp h
      exact .done w
    | cons t ts =>
      rw [rounds] at h
      exact absurd h Act.does_throw
  | succ n ih =>
    cases ts with
    | nil =>
      rw [rounds] at h
      obtain ⟨rfl, rfl⟩ := Act.does_pure.mp h
      exact .done w
    | cons t ts =>
      rw [rounds, Act.does_bind] at h
      obtain ⟨ps, v, hps, h⟩ := h
      rw [Act.does_bind] at h
      obtain ⟨c', v', hc, h⟩ := h
      obtain ⟨rfl, rfl⟩ := Act.does_pure.mp h
      exact runs_of_mapM [] hps (ih hc)

/-- Copying a directory lets its tasks take turns. -/
theorem runs_of_copyTree {r : Rules} {source target : Path} {w w' : World} {c : Counts}
    (h : Act.Does (copyTree r source target) w c w') : Runs r [.make source target] w c w' :=
  runs_of_rounds h

theorem Runs.of_singleton {r : Rules} {t : Task} {w w' : World} {c : Counts}
    (h : Runs r [t] w c w') : ∃ p v c', Act.Does (t.step r) w p v ∧ Runs r p.tasks v c' w' ∧
      c = p.counts + c' := by
  generalize hts : [t] = ts at h
  cases h with
  | done w => exact absurd hts (List.cons_ne_nil _ _)
  | @step before after t' p c' _ v _ ht rest =>
    rcases List.append_eq_cons_iff.mp hts.symm with ⟨rfl, he⟩ | ⟨before', rfl, he⟩
    · obtain ⟨rfl, rfl⟩ := List.cons.inj he
      rw [List.nil_append, List.append_nil] at rest
      exact ⟨p, v, c', ht, rest, rfl⟩
    · exact absurd he (by simp)

/-! ## The invariant -/

namespace Mirror

/-- What holds between steps. -/
structure Inv (m : Mirror) (base d : Disk) (ps : List (Task × Region)) (c : Counts) : Prop where
  stays : m.At d
  works : ∀ p ∈ ps, m.Works p.1 p.2
  apart : ps.Pairwise fun p q => p.2.Apart q.2
  empty : ∀ p ∈ ps, ∀ y, p.2.Covers y → d.entryAt? (m.goal ++ y) = none
  done : ∀ y, (∀ p ∈ ps, ¬ p.2.Covers y) → d.entryAt? (m.goal ++ y) = m.image? y ∧ m.Defined y
  outside : ∀ q, ¬ m.goal <+: q → d.entryAt? q = base.entryAt? q
  tally : c + (ps.map fun p => m.tally p.2).sum = m.tally ⟨[], true⟩

variable {m : Mirror} {base d d' : Disk} {c : Counts} {a b : List (Task × Region)} {t : Task}
  {g : Region}

theorem Inv.apart_of_mem (h : m.Inv base d (a ++ (t, g) :: b) c) {q : Task × Region}
    (hq : q ∈ a ∨ q ∈ b) : q.2.Apart g := by
  obtain ⟨-, hb, hab⟩ := List.pairwise_append.mp h.apart
  rcases hq with hq | hq
  · exact hab q hq (t, g) List.mem_cons_self
  · exact fun y hy => (List.pairwise_cons.mp hb).1 q hq y ⟨hy.2, hy.1⟩

/-- A split keeps the invariant. -/
theorem Inv.split (h : m.Inv base d (a ++ (t, g) :: b) c) {p : Progress}
    {qs : List (Task × Region)} (hs : m.Splits d d' g p qs) :
    m.Inv base d' (a ++ qs ++ b) (c + p.counts) := by
  have hmem : ∀ q, q ∈ a ∨ q ∈ b → q ∈ a ++ (t, g) :: b := fun q hq => by
    rcases hq with hq | hq
    · exact List.mem_append_left _ hq
    · exact List.mem_append_right _ (List.mem_cons_of_mem _ hq)
  have hcases : ∀ q, q ∈ a ++ qs ++ b → q ∈ qs ∨ (q ∈ a ∨ q ∈ b) := fun q hq => by
    rcases List.mem_append.mp hq with hq | hq
    · rcases List.mem_append.mp hq with hq | hq
      · exact Or.inr (Or.inl hq)
      · exact Or.inl hq
    · exact Or.inr (Or.inr hq)
  -- outside of the region the target is as it was
  have hframe : ∀ y, ¬ g.Covers y → d'.entryAt? (m.goal ++ y) = d.entryAt? (m.goal ++ y) :=
    fun y hy => hs.frame _ fun z hz he => hy (List.append_cancel_left he ▸ hz)
  have hnew : ∀ q ∈ qs, ∀ q', q' ∈ a ∨ q' ∈ b → q'.2.Apart q.2 := fun q hq q' hq' y hy =>
    h.apart_of_mem hq' y ⟨hy.1, hs.inside q hq y hy.2⟩
  obtain ⟨ha, hb, hab⟩ := List.pairwise_append.mp h.apart
  obtain ⟨-, hb⟩ := List.pairwise_cons.mp hb
  exact {
    stays := hs.stays
    works := fun q hq => (hcases q hq).elim (hs.works q) fun hq => h.works q (hmem q hq)
    apart := by
      refine List.pairwise_append.mpr ⟨List.pairwise_append.mpr ⟨ha, hs.apart, ?_⟩, hb, ?_⟩
      · exact fun q hq q' hq' => hnew q' hq' q (Or.inl hq)
      · intro q hq q' hq'
        rcases List.mem_append.mp hq with hq | hq
        · exact hab q hq q' (List.mem_cons_of_mem _ hq')
        · exact fun y hy => hnew q hq q' (Or.inr hq') y ⟨hy.2, hy.1⟩
    empty := fun q hq y hy => by
      rcases hcases q hq with hq | hq
      · exact hs.empty q hq y hy
      · rw [hframe y fun hg => h.apart_of_mem hq y ⟨hy, hg⟩]
        exact h.empty q (hmem q hq) y hy
    done := fun y hy => by
      by_cases hg : g.Covers y
      · exact hs.done y hg fun q hq =>
          hy q (List.mem_append_left _ (List.mem_append_right _ hq))
      · rw [hframe y hg]
        refine h.done y fun q hq => ?_
        rcases List.mem_append.mp hq with hq | hq
        · exact hy q (List.mem_append_left _ (List.mem_append_left _ hq))
        · rcases List.mem_cons.mp hq with rfl | hq
          · exact hg
          · exact hy q (List.mem_append_right _ hq)
    outside := fun q hq => by
      rw [hs.frame q fun y _ he => hq ⟨y, he.symm⟩]
      exact h.outside q hq
    tally := by
      rw [← h.tally, List.map_append, List.map_append, List.map_append, List.map_cons,
        List.sum_append, List.sum_append, List.sum_append, List.sum_cons, hs.tally]
      abel }

/-- Above the place of a task all is kept and a directory. -/
theorem Works.above (hm : m.Sound) (h : m.Works t g) {y : Place} (hy : y <+: g.place)
    (hne : y ≠ g.place) : m.keeps y = true ∧ m.original? y = some .dir := by
  have hdir : (m.original? g.place).isSome = true → m.original? y = some .dir := fun hsome => by
    obtain ⟨z, hz⟩ := hy
    have hzne : z ≠ [] := fun h => hne (by rw [← hz, h, List.append_nil])
    rw [← hz] at hsome
    exact hm.tree.dir_of_prefix hzne hsome
  cases h with
  | make hk he => exact ⟨m.keeps_of_prefix hy hk, hdir (by rw [he]; rfl)⟩
  | list hk he => exact ⟨m.keeps_of_prefix hy hk, hdir (by rw [he]; rfl)⟩
  | compare hk he =>
    have hyx := (List.prefix_concat_iff.mp hy).resolve_left hne
    exact ⟨m.keeps_of_prefix hyx hk, hdir he⟩
  | classify hk he => exact ⟨m.keeps_of_prefix hy hk, hdir he⟩
  | redirect hk he => exact ⟨m.keeps_of_prefix hy hk, hdir (by rw [he]; rfl)⟩
  | write hk he => exact ⟨m.keeps_of_prefix hy hk, hdir (by rw [he]; rfl)⟩
  | copy hk he => exact ⟨m.keeps_of_prefix hy hk, hdir (by rw [he]; rfl)⟩

/-- The directories above a task's place have been made. -/
theorem Inv.parents (hm : m.Sound) (h : m.Inv base d (a ++ (t, g) :: b) c) {y : Place}
    (hy : y <+: g.place) (hne : y ≠ g.place) : d.entryAt? (m.goal ++ y) = some .dir := by
  have hg : ¬ g.Covers y := fun hc =>
    hne (hy.eq_of_length (Nat.le_antisymm hy.length_le hc.1.length_le))
  obtain ⟨z, hyz, hz⟩ : ∃ z, y <+: z ∧ g.Covers z := by
    refine ⟨g.place ++ [[]], hy.trans (List.prefix_append _ _), List.prefix_append _ _, fun _ => ?_⟩
    simp
  have huncovered : ∀ q ∈ a ++ (t, g) :: b, ¬ q.2.Covers y := fun q hq hc => by
    have hboth := hc.below hyz
    rcases List.mem_append.mp hq with hq | hq
    · exact h.apart_of_mem (Or.inl hq) z ⟨hboth, hz⟩
    · rcases List.mem_cons.mp hq with rfl | hq
      · exact hg hc
      · exact h.apart_of_mem (Or.inr hq) z ⟨hboth, hz⟩
  have hwork := h.works (t, g) (List.mem_append_right _ List.mem_cons_self)
  obtain ⟨hk, hdir⟩ := hwork.above hm hy hne
  rw [(h.done y huncovered).1, (m.image?_of_dir hk hdir).1]

/-- A task that has a region stands where its region does. -/
theorem exists_region {ps : List (Task × Region)} {before after : List Task} {t : Task}
    (h : ps.map Prod.fst = before ++ t :: after) : ∃ a g b, ps = a ++ (t, g) :: b ∧
      a.map Prod.fst = before ∧ b.map Prod.fst = after := by
  obtain ⟨a, rs, rfl, ha, hrs⟩ := List.map_eq_append_iff.mp h
  obtain ⟨⟨t, g⟩, b, rfl, rfl, hb⟩ := List.map_eq_cons_iff.mp hrs
  exact ⟨a, g, b, rfl, ha, hb⟩

/-- The invariant holds of a run, in whatever order the tasks take their steps. -/
theorem Inv.run (hm : m.Sound) {ts : List Task} {w w' : World} {c' : Counts}
    (hruns : Runs m.rules ts w c' w') {ps : List (Task × Region)} (hts : ps.map Prod.fst = ts)
    (h : m.Inv base w.disk ps c) : m.Inv base w'.disk [] (c + c') := by
  induction hruns generalizing ps c with
  | done w =>
    rw [List.map_eq_nil_iff.mp hts] at h
    show m.Inv base w.disk [] (c + 0)
    rwa [add_zero]
  | @step before after t p c₁ w v w' ht rest ih =>
    obtain ⟨a, g, b, rfl, rfl, rfl⟩ := exists_region hts
    have hin : (t, g) ∈ a ++ (t, g) :: b := List.mem_append_right _ List.mem_cons_self
    obtain ⟨qs, hs⟩ := splits_of_step hm h.stays (h.works _ hin) (h.empty _ hin)
      (fun y hy hne => h.parents hm hy hne) ht
    have htasks : (a ++ qs ++ b).map Prod.fst = a.map Prod.fst ++ p.tasks ++ b.map Prod.fst := by
      rw [List.map_append, List.map_append, hs.tasks]
    have hnext := ih htasks (h.split hs)
    rwa [add_assoc] at hnext

end Mirror

end Assembly

end UberPackage
