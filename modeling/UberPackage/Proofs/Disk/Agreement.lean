/-
  Disks that agree.

  A path that is resolved leads down from the top to the place that its parts are
  (`Disk.locate_resolved`). What a query finds depends on what stands along its path alone: on a
  disk that has the same there (`Disk.SameAlong`) it finds the same.
-/
import UberPackage.Proofs.Disk.Length
import UberPackage.Proofs.Disk.Change

namespace UberPackage.Disk

/-! ## Resolved paths -/

section Resolved

variable {d : Disk} {p : Path}

theorem startOf_resolved (h : p.IsResolved) : d.startOf p = [] := if_pos h.isAbsolute

theorem placeOf_resolved (h : p.IsResolved) : d.placeOf p = p.parts := by
  rw [placeOf, startOf_resolved h, foldl_walkPart h.ne_dots, List.nil_append]

theorem way_resolved (h : p.IsResolved) {q : Place} : d.Way p q ↔ q <+: p.parts := by
  constructor
  · rintro ⟨parts, hparts, rfl⟩
    rwa [startOf_resolved h, foldl_walkPart fun part hp => h.ne_dots part (hparts.subset hp)]
  · intro hq
    exact ⟨q, hq, by
      rw [startOf_resolved h, foldl_walkPart fun part hp => h.ne_dots part (hq.subset hp),
        List.nil_append]⟩

/-- The directories on the way down to a place are there, and its names are short enough. -/
def Reaches (d : Disk) (place : Place) : Prop :=
  ∀ x n, x ++ [n] <+: place → d.entryAt? x = some .dir ∧ n.size ≤ nameLimit

theorem step_eq_ok {here : Place} {part : Text} (hp : part ≠ "..") :
    d.step here part = .ok (here ++ [part]) ↔ d.entryAt? here = some .dir ∧
    part.size ≤ nameLimit := by
  rw [step]
  cases d.entryAt? here with
  | none => simp
  | some e =>
    cases e with
    | file bytes => simp
    | dir =>
      dsimp only
      rw [if_neg hp]
      rw [show (part.nameSize?).getD 0 = part.size from rfl]
      split
      · next h => simpa using h
      · next h => simpa using Nat.le_of_not_lt h

theorem foldlM_step_iff {parts : List Text} (hp : ∀ part ∈ parts, part ≠ "..") (here : Place) :
    parts.foldlM d.step here = .ok (here ++ parts) ↔
      ∀ x n, x ++ [n] <+: parts → d.entryAt? (here ++ x) = some .dir ∧ n.size ≤ nameLimit := by
  induction parts generalizing here with
  | nil =>
    refine ⟨fun _ x n h => absurd (List.prefix_nil.mp h) (by simp), fun _ => ?_⟩
    rw [List.append_nil]
    rfl
  | cons part parts ih =>
    have hpart := hp part List.mem_cons_self
    have ih := ih (fun q hq => hp q (List.mem_cons_of_mem _ hq)) (here ++ [part])
    rw [List.append_assoc, List.singleton_append] at ih
    rw [List.foldlM_cons, except_bind_eq_ok]
    constructor
    · rintro ⟨next, hstep, hrest⟩ x n hx
      have hnext : next = here ++ [part] := by
        rw [(step_ok hstep).2, walkPart, if_neg hpart]
      subst hnext
      cases x with
      | nil =>
        obtain ⟨rfl, -⟩ := List.cons_prefix_cons.mp hx
        rw [List.append_nil]
        exact (step_eq_ok hpart).mp hstep
      | cons m x =>
        obtain ⟨rfl, hrest'⟩ := List.cons_prefix_cons.mp hx
        have hall := ih.mp hrest x n hrest'
        rwa [List.append_assoc] at hall
    · intro hall
      have hfirst := hall [] part (List.cons_prefix_cons.mpr ⟨rfl, List.nil_prefix⟩)
      rw [List.append_nil] at hfirst
      refine ⟨_, (step_eq_ok hpart).mpr hfirst, ih.mpr fun x n hx => ?_⟩
      rw [List.append_assoc]
      exact hall (part :: x) n (List.cons_prefix_cons.mpr ⟨rfl, hx⟩)

theorem leads_resolved (h : p.IsResolved) : d.Leads p ↔ d.Reaches p.parts := by
  have hfold := @foldlM_step_iff d p.parts h.ne_dots []
  rw [Leads, placeOf_resolved h, startOf_resolved h]
  exact hfold

/-- Where a resolved path leads. -/
theorem locate_resolved (h : p.IsResolved) {q : Place} :
    d.locate p = .ok q ↔ p.nameFault? = none ∧ d.Reaches p.parts ∧ q = p.parts := by
  rw [locate_eq_ok, leads_resolved h, placeOf_resolved h]

theorem list_resolved (h : p.IsResolved) {names : List Text} (hl : d.list p = .ok names) :
    d.entryAt? p.parts = some .dir ∧ names = d.namesIn p.parts := by
  obtain ⟨-, hdir, hnames⟩ := list_eq_ok hl
  rw [placeOf_resolved h] at hdir hnames
  exact ⟨hdir, hnames⟩

theorem read_resolved (h : p.IsResolved) {bytes : Bytes} (hr : d.read p = .ok bytes) :
    d.entryAt? p.parts = some (.file bytes) := by
  rw [← placeOf_resolved (d := d) h]
  exact (read_eq_ok hr).2

/-- A path that can be reached and is not too long finds what stands there, if anything does. -/
theorem probe_of_reaches (h : p.IsResolved) (hn : p.nameFault? = none) (hr : d.Reaches p.parts) :
    d.probe p = .ok (d.entryAt? p.parts) := by
  rw [probe, stat, (locate_resolved h).mpr ⟨hn, hr, rfl⟩, except_ok_bind]
  cases d.entryAt? p.parts with
  | none => rfl
  | some e => rfl

/-- The path of a question that has an answer is not too long. -/
theorem nameFault?_of_probe (hu : p.HasNameUnits) {e : Option Entry} (he : d.probe p = .ok e) :
    p.nameFault? = none := by
  rcases Path.nameFault?_of_hasNameUnits hu with hname | hname
  · exact hname
  · rw [probe, stat, locate, hname] at he
    cases he

theorem Reaches.of_prefix {x y : Place} (h : d.Reaches y) (hxy : x <+: y) : d.Reaches x :=
  fun z n hz => h z n (hz.trans hxy)

theorem Reaches.size {y : Place} (h : d.Reaches y) : ∀ n ∈ y, n.size ≤ nameLimit := by
  intro n hn
  obtain ⟨x, z, rfl⟩ := List.append_of_mem hn
  exact (h x n ⟨z, by rw [List.append_assoc]; rfl⟩).2

theorem reaches_concat {x : Place} {n : Text} :
    d.Reaches (x ++ [n]) ↔ d.Reaches x ∧ d.entryAt? x = some .dir ∧ n.size ≤ nameLimit := by
  constructor
  · exact fun h => ⟨h.of_prefix (List.prefix_append _ _), h x n (List.prefix_refl _)⟩
  · rintro ⟨h, hdir, hsize⟩ y m hy
    rcases List.prefix_concat_iff.mp hy with hy | hy
    · obtain ⟨rfl, hm⟩ := List.append_inj' hy rfl
      obtain rfl := (List.cons.inj hm).1
      exact ⟨hdir, hsize⟩
    · exact h y m hy

end Resolved

/-! ## The same along a path -/

/-- The disks have the same at all places along a path. -/
def SameAlong (d e : Disk) (p : Path) : Prop := ∀ q, q <+: p.parts → e.entryAt? q = d.entryAt? q

/-- A path is located by what stands above its place. -/
theorem locate_congr {d e : Disk} {p : Path} (hp : p.IsResolved)
    (h : ∀ q, q <+: p.parts → q ≠ p.parts → e.entryAt? q = d.entryAt? q) :
    e.locate p = d.locate p := by
  have hfold : ∀ (parts here : Place), here ++ parts = p.parts →
      parts.foldlM e.step here = parts.foldlM d.step here := by
    intro parts
    induction parts with
    | nil => exact fun _ _ => rfl
    | cons part parts ih =>
      intro here hparts
      have hhere : e.entryAt? here = d.entryAt? here := by
        refine h here ⟨_, hparts⟩ fun he => ?_
        rw [← he] at hparts
        exact absurd (List.append_right_eq_self.mp hparts) (List.cons_ne_nil _ _)
      have hstep : e.step here part = d.step here part := by rw [step, hhere, step]
      have hdots : part ≠ ".." :=
        hp.ne_dots part (hparts ▸ List.mem_append_right _ List.mem_cons_self)
      rw [List.foldlM_cons, List.foldlM_cons, hstep]
      cases hs : d.step here part with
      | error f => rfl
      | ok next =>
        have hnext : next = here ++ [part] := by rw [(step_ok hs).2, walkPart, if_neg hdots]
        rw [except_ok_bind, except_ok_bind, hnext]
        exact ih _ (by rw [← hparts, List.append_assoc]; rfl)
  rw [locate, locate, if_pos hp.isAbsolute, if_pos hp.isAbsolute, hfold p.parts [] rfl]

namespace SameAlong

variable {d e : Disk} {p : Path}

theorem locate (h : SameAlong d e p) (hp : p.IsResolved) : e.locate p = d.locate p :=
  locate_congr hp fun q hq _ => h q hq

theorem stat (h : SameAlong d e p) (hp : p.IsResolved) : e.stat p = d.stat p := by
  rw [Disk.stat, Disk.stat, h.locate hp]
  cases hl : d.locate p with
  | error f => rfl
  | ok q =>
    obtain rfl := (locate_resolved hp).mp hl |>.2.2
    rw [except_ok_bind, except_ok_bind, h p.parts (List.prefix_refl _)]

theorem probe (h : SameAlong d e p) (hp : p.IsResolved) : e.probe p = d.probe p := by
  rw [Disk.probe, Disk.probe, h.stat hp]

theorem exists? (h : SameAlong d e p) (hp : p.IsResolved) : e.exists? p = d.exists? p := by
  rw [Disk.exists?, Disk.exists?, h.probe hp]

theorem isDirectory? (h : SameAlong d e p) (hp : p.IsResolved) :
    e.isDirectory? p = d.isDirectory? p := by
  rw [Disk.isDirectory?, Disk.isDirectory?, h.probe hp]

theorem read (h : SameAlong d e p) (hp : p.IsResolved) : e.read p = d.read p := by
  rw [Disk.read, Disk.read, h.stat hp]

end SameAlong

/-- A directory is listed by what stands in it. -/
theorem namesIn_congr {d e : Disk} (hd : d.Distinct) (he : e.Distinct) {place : Place}
    (h : ∀ n, e.entryAt? (place ++ [n]) = d.entryAt? (place ++ [n])) :
    e.namesIn place = d.namesIn place := by
  have hperm : (e.namesIn place).Perm (d.namesIn place) :=
    (List.perm_ext_iff_of_nodup (nodup_namesIn he place) (nodup_namesIn hd place)).mpr fun n => by
      rw [mem_namesIn, mem_namesIn, h]
  exact hperm.eq_of_pairwise (fun a b _ _ hab hba => Text.le_antisymm a b hab hba)
    (Text.sorted_sort _) (Text.sorted_sort _)

theorem SameAlong.list {d e : Disk} {p : Path} (h : SameAlong d e p) (hp : p.IsResolved)
    (hd : d.Distinct) (he : e.Distinct)
    (hnames : ∀ n, e.entryAt? (p.parts ++ [n]) = d.entryAt? (p.parts ++ [n])) :
    e.list p = d.list p := by
  rw [Disk.list, Disk.list, h.locate hp]
  cases hl : d.locate p with
  | error f => rfl
  | ok q =>
    obtain rfl := (locate_resolved hp).mp hl |>.2.2
    rw [except_ok_bind, except_ok_bind, h p.parts (List.prefix_refl _), namesIn_congr hd he hnames]

end UberPackage.Disk
