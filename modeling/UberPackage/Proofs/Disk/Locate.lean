/-
  Where paths lead.

  A path that can be followed leads to the place that its text spells (`Disk.placeOf`), whatever
  stands on the way.  File names are what a file system gives as names (`Text.IsFileName`); a path
  that goes down along directories by file names can be followed (`IsTree.foldlM_step`), unless
  it is too long (`Disk.probe_down`).
-/
import Mathlib.Data.List.Induction
import UberPackage.Proofs.Disk.Lookup
import UberPackage.Proofs.Except
import UberPackage.Proofs.Path

namespace UberPackage

/-! ## File names -/

/-- A unit that can stand in names. -/
def Code.IsNameUnit (c : Code) : Prop := c.nameSize?.isSome = true ∧ c ≠ .char '\x00'

namespace Text

/-- A name as file systems have them. -/
structure IsFileName (n : Text) : Prop where
  ne_nil : n ≠ []
  ne_dot : n ≠ "."
  ne_dots : n ≠ ".."
  no_slash : Code.char '/' ∉ n
  units : ∀ c ∈ n, c.IsNameUnit
  size_le : (n.nameSize?).getD 0 ≤ Disk.nameLimit

theorem IsFileName.isComponent {n : Text} (h : n.IsFileName) : n.IsComponent :=
  ⟨h.ne_nil, h.ne_dot, h.ne_dots, h.no_slash⟩

theorem isSome_nameSize? {t : Text} :
    t.nameSize?.isSome = true ↔ ∀ c ∈ t, c.nameSize?.isSome = true := by
  induction t with
  | nil => simp [nameSize?]
  | cons c t ih =>
    rw [nameSize?, List.forall_mem_cons, ← ih]
    cases hc : c.nameSize? with
    | none => simp
    | some k => cases ht : nameSize? t <;> simp

end Text

namespace Path

theorem append_fileName {n : Text} (h : n.IsFileName) (p : Path) : p / n = p.down [n] :=
  append_component h.isComponent p

theorem IsResolved.down_fileNames {p : Path} (h : p.IsResolved) {y : Place}
    (hy : ∀ n ∈ y, Text.IsFileName n) : (p.down y).IsResolved :=
  h.down fun n hn => (hy n hn).isComponent

theorem IsResolved.down_fileName {p : Path} (h : p.IsResolved) {n : Text} (hn : n.IsFileName) :
    (p.down [n]).IsResolved :=
  h.down_fileNames fun _ hm => List.mem_singleton.mp hm ▸ hn

/-- The units of a path's parts are those of names. -/
def HasNameUnits (p : Path) : Prop := ∀ part ∈ p.parts, ∀ c ∈ part, c.IsNameUnit

theorem hasNameUnits_of_nameFault? {p : Path} (h : p.nameFault? = none) : p.HasNameUnits := by
  intro part hp c hc
  have hm := mem_text_of_mem hp hc
  rw [nameFault?] at h
  split at h
  · exact absurd h (by simp)
  · next size hsize =>
    split at h
    · exact absurd h (by simp)
    · next hnull =>
      have hsome := Text.isSome_nameSize?.mp (by rw [hsize]; rfl) c hm
      exact ⟨hsome, fun he => hnull (List.elem_iff.mpr (he ▸ hm))⟩

/-- Nothing but the length is wrong with a path whose parts are made for names. -/
theorem nameFault?_of_hasNameUnits {p : Path} (h : p.HasNameUnits) :
    p.nameFault? = none ∨ p.nameFault? = some (.refused .nameTooLong p.text) := by
  have hunit : ∀ c ∈ p.text, c.IsNameUnit := fun c hc => by
    rcases mem_text hc with rfl | rfl | ⟨part, hp, hc⟩
    · exact ⟨by decide, by decide⟩
    · exact ⟨by decide, by decide⟩
    · exact h part hp c hc
  obtain ⟨size, hsize⟩ := Option.isSome_iff_exists.mp
    (Text.isSome_nameSize?.mpr fun c hc => (hunit c hc).1)
  have hnull : ¬ p.text.contains (.char '\x00') = true := fun hc =>
    (hunit _ (List.elem_iff.mp hc)).2 rfl
  rw [nameFault?, hsize]
  dsimp only
  rw [if_neg hnull]
  split
  · exact Or.inr rfl
  · exact Or.inl rfl

theorem HasNameUnits.down {p : Path} (h : p.HasNameUnits) {y : Place}
    (hy : ∀ n ∈ y, Text.IsFileName n) : (p.down y).HasNameUnits := by
  intro part hp c hc
  rcases List.mem_append.mp hp with hp | hp
  · exact h part hp c hc
  · exact (hy part hp).units c hc

end Path

/-! ## Following a path -/

namespace Disk

/-- The place that one more part leads to. -/
def walkPart (here : Place) (part : Text) : Place :=
  if part = ".." then here.dropLast else here ++ [part]

/-- Where a path begins. -/
def startOf (d : Disk) (p : Path) : Place := if p.isAbsolute then [] else d.cwd

/-- The place that a path spells. -/
def placeOf (d : Disk) (p : Path) : Place := p.parts.foldl walkPart (d.startOf p)

/-- Parts other than `..` lead down at each step. -/
theorem foldl_walkPart {parts : List Text} (h : ∀ part ∈ parts, part ≠ "..") (here : Place) :
    parts.foldl walkPart here = here ++ parts := by
  induction parts generalizing here with
  | nil => exact (List.append_nil here).symm
  | cons part parts ih =>
    rw [List.foldl_cons, ih fun q hq => h q (List.mem_cons_of_mem _ hq), walkPart,
      if_neg (h part List.mem_cons_self), List.append_assoc, List.singleton_append]

theorem placeOf_down {d : Disk} {p : Path} {y : Place} (hy : ∀ n ∈ y, Text.IsFileName n) :
    d.placeOf (p.down y) = d.placeOf p ++ y := by
  rw [placeOf, Path.down, List.foldl_append, foldl_walkPart fun n hn => (hy n hn).ne_dots]
  rfl

theorem step_ok {d : Disk} {here q : Place} {part : Text} (h : d.step here part = .ok q) :
    d.entryAt? here = some .dir ∧ q = walkPart here part := by
  rw [step] at h
  split at h
  · exact absurd h (by simp)
  · exact absurd h (by simp)
  · next hdir =>
    refine ⟨hdir, ?_⟩
    rw [walkPart]
    split at h
    · next hdots => rw [if_pos hdots, ← Except.ok.inj h]
    · next hdots =>
      rw [if_neg hdots]
      split at h
      · exact absurd h (by simp)
      · exact (Except.ok.inj h).symm

theorem foldlM_step_ok {d : Disk} {parts : List Text} {here q : Place}
    (h : parts.foldlM d.step here = .ok q) : q = parts.foldl walkPart here := by
  induction parts generalizing here with
  | nil => exact (Except.ok.inj h).symm
  | cons part parts ih =>
    rw [List.foldlM_cons, except_bind_eq_ok] at h
    obtain ⟨next, hstep, h⟩ := h
    rw [List.foldl_cons, ← (step_ok hstep).2]
    exact ih h

/-- The directories on the way are all there. -/
def Leads (d : Disk) (p : Path) : Prop := p.parts.foldlM d.step (d.startOf p) = .ok (d.placeOf p)

theorem locate_eq_ok {d : Disk} {p : Path} {q : Place} :
    d.locate p = .ok q ↔ p.nameFault? = none ∧ d.Leads p ∧ q = d.placeOf p := by
  rw [locate, Leads]
  constructor
  · intro h
    split at h
    · exact absurd h (by simp)
    · next hname =>
      split at h
      · next place hplace =>
        have hq : place = d.placeOf p := foldlM_step_ok hplace
        cases h
        exact ⟨hname, by rw [← hq]; exact hplace, hq⟩
      · exact absurd h (by simp)
  · rintro ⟨hname, hleads, rfl⟩
    rw [hname]
    dsimp only
    rw [show (if p.isAbsolute then [] else d.cwd) = d.startOf p from rfl, hleads]

theorem Leads.mono {d d' : Disk} {p : Path} (h : d.Leads p) (hcwd : d'.cwd = d.cwd)
    (hdirs : ∀ q, d.entryAt? q = some .dir → d'.entryAt? q = some .dir) : d'.Leads p := by
  have hstart : d'.startOf p = d.startOf p := by rw [startOf, startOf, hcwd]
  have hfold : ∀ (parts : List Text) (here q : Place), parts.foldlM d.step here = .ok q →
      parts.foldlM d'.step here = .ok q := by
    intro parts
    induction parts with
    | nil => exact fun here q h => h
    | cons part parts ih =>
      intro here q h
      rw [List.foldlM_cons, except_bind_eq_ok] at h ⊢
      obtain ⟨next, hstep, h⟩ := h
      have hdir := (step_ok hstep).1
      refine ⟨next, ?_, ih next q h⟩
      rw [step, hdir] at hstep
      rw [step, hdirs here hdir]
      exact hstep
  rw [Leads, placeOf, hstart]
  exact hfold _ _ _ h

/-! ## Trees -/

/-- What stands below a place has a file name and stands in a directory. -/
structure IsTree (d : Disk) (top : Place) : Prop where
  names : ∀ y n, (d.entryAt? (top ++ y ++ [n])).isSome = true → Text.IsFileName n
  dirs : ∀ y n, (d.entryAt? (top ++ y ++ [n])).isSome = true → d.entryAt? (top ++ y) = some .dir

namespace IsTree

variable {d : Disk} {top : Place}

theorem fileNames (h : d.IsTree top) {y : Place} (hy : (d.entryAt? (top ++ y)).isSome = true) :
    ∀ n ∈ y, Text.IsFileName n := by
  induction y using List.reverseRecOn with
  | nil => exact fun n hn => absurd hn List.not_mem_nil
  | append_singleton y n ih =>
    rw [← List.append_assoc] at hy
    intro m hm
    rcases List.mem_append.mp hm with hm | hm
    · exact ih (by rw [h.dirs y n hy]; rfl) m hm
    · rw [List.mem_singleton.mp hm]
      exact h.names y n hy

/-- The directories on the way to a place in the tree. -/
theorem dir_of_prefix (h : d.IsTree top) {x z : Place} (hz : z ≠ [])
    (hxz : (d.entryAt? (top ++ (x ++ z))).isSome = true) : d.entryAt? (top ++ x) = some .dir := by
  induction z using List.reverseRecOn with
  | nil => exact absurd rfl hz
  | append_singleton z n ih =>
    rw [← List.append_assoc, ← List.append_assoc] at hxz
    have hdir := h.dirs (x ++ z) n (by rw [← List.append_assoc]; exact hxz)
    cases z with
    | nil => rwa [List.append_nil] at hdir
    | cons m z => exact ih (List.cons_ne_nil _ _) (by rw [hdir]; rfl)

/-- Names lead down along directories. -/
theorem foldlM_step (h : d.IsTree top) {x : Place} (hdir : d.entryAt? (top ++ x) = some .dir)
    {n : Text} (hn : n.IsFileName) : (x ++ [n]).foldlM d.step top = .ok (top ++ x ++ [n]) := by
  have hstep : ∀ (here : Place) (m : Text), m.IsFileName → d.entryAt? here = some .dir →
      d.step here m = .ok (here ++ [m]) := by
    intro here m hm hd
    rw [step, hd]
    dsimp only
    rw [if_neg hm.ne_dots, if_neg (Nat.not_lt.mpr hm.size_le)]
  have hdown : ∀ y : Place, d.entryAt? (top ++ y) = some .dir →
      y.foldlM d.step top = .ok (top ++ y) := by
    intro y
    induction y using List.reverseRecOn with
    | nil => exact fun _ => congrArg Except.ok (List.append_nil top).symm
    | append_singleton y m ih =>
      intro hy
      rw [← List.append_assoc] at hy
      have hm := h.names y m (by rw [hy]; rfl)
      have hd := h.dirs y m (by rw [hy]; rfl)
      have hlast : [m].foldlM d.step (top ++ y) = .ok (top ++ (y ++ [m])) := by
        rw [List.foldlM_cons, hstep _ m hm hd, ← List.append_assoc]
        rfl
      rw [List.foldlM_append, ih hd]
      exact hlast
  have hlast : [n].foldlM d.step (top ++ x) = .ok (top ++ x ++ [n]) := by
    rw [List.foldlM_cons, hstep _ n hn hdir]
    rfl
  rw [List.foldlM_append, hdown x hdir]
  exact hlast

end IsTree

instance (n : Text) : Decidable n.IsFileName :=
  decidable_of_iff (n ≠ [] ∧ n ≠ "." ∧ n ≠ ".." ∧ Code.char '/' ∉ n ∧
      (∀ c ∈ n, c.nameSize?.isSome = true ∧ c ≠ .char '\x00') ∧ (n.nameSize?).getD 0 ≤ nameLimit)
    ⟨fun ⟨h, hd, hds, hs, hu, hl⟩ => ⟨h, hd, hds, hs, hu, hl⟩,
      fun h => ⟨h.ne_nil, h.ne_dot, h.ne_dots, h.no_slash, h.units, h.size_le⟩⟩

/-- The entries below a place tell whether it is a tree. -/
theorem isTree_of_entries {d : Disk} {top : Place}
    (h : ∀ q ∈ d.entries.map Prod.fst, top <+: q.dropLast → q ≠ [] →
      (q.getLast?.getD []).IsFileName ∧ d.entryAt? q.dropLast = some .dir) : d.IsTree top := by
  have hall : ∀ y n, (d.entryAt? (top ++ y ++ [n])).isSome = true →
      Text.IsFileName n ∧ d.entryAt? (top ++ y) = some .dir := by
    intro y n hy
    have hne : top ++ y ++ [n] ≠ [] := List.append_ne_nil_of_right_ne_nil _ (List.cons_ne_nil _ _)
    rw [entryAt?_of_ne hne, ← mem_keys_iff] at hy
    have hq := h _ hy
    rw [List.dropLast_concat, List.getLast?_concat] at hq
    exact hq (List.prefix_append _ _) hne
  exact ⟨fun y n hy => (hall y n hy).1, fun y n hy => (hall y n hy).2⟩

/-- Looking for a name in a directory of a tree finds what stands there, unless the path to it is
too long. -/
theorem probe_down {d : Disk} {p : Path} (hleads : d.Leads p) (hunits : p.HasNameUnits)
    (htree : d.IsTree (d.placeOf p)) {x : Place} (hdir : d.entryAt? (d.placeOf p ++ x) = some .dir)
    {n : Text} (hn : n.IsFileName) {e : Option Entry} (h : d.probe (p.down (x ++ [n])) = .ok e) :
    e = d.entryAt? (d.placeOf p ++ x ++ [n]) := by
  have hnames : ∀ m ∈ x ++ [n], Text.IsFileName m := fun m hm => by
    rcases List.mem_append.mp hm with hm | hm
    · exact htree.fileNames (by rw [hdir]; rfl) m hm
    · rw [List.mem_singleton.mp hm]
      exact hn
  have hplace := placeOf_down (d := d) (p := p) hnames
  have hleads' : d.Leads (p.down (x ++ [n])) := by
    rw [Leads, hplace, Path.down, List.foldlM_append]
    show (p.parts.foldlM d.step (d.startOf p) >>= fun s => (x ++ [n]).foldlM d.step s) = _
    rw [hleads, ← List.append_assoc]
    exact htree.foldlM_step hdir hn
  rw [probe, stat] at h
  rcases Path.nameFault?_of_hasNameUnits (hunits.down hnames) with hname | hname
  · rw [locate_eq_ok.mpr ⟨hname, hleads', rfl⟩, hplace, ← List.append_assoc] at h
    cases he : d.entryAt? (d.placeOf p ++ x ++ [n]) with
    | none =>
      simp only [bind, Except.bind, he] at h
      exact (Except.ok.inj h).symm
    | some e' =>
      simp only [bind, Except.bind, he] at h
      exact (Except.ok.inj h).symm
  · rw [locate, hname] at h
    exact absurd h (by simp [bind, Except.bind])

/-! ## Queries that succeed -/

theorem list_eq_ok {d : Disk} {p : Path} {names : List Text} (h : d.list p = .ok names) :
    d.locate p = .ok (d.placeOf p) ∧ d.entryAt? (d.placeOf p) = some .dir ∧
      names = d.namesIn (d.placeOf p) := by
  rw [list, except_bind_eq_ok] at h
  obtain ⟨q, hq, h⟩ := h
  obtain rfl := (locate_eq_ok.mp hq).2.2
  split at h
  · next hdir => exact ⟨hq, hdir, (Except.ok.inj h).symm⟩
  · exact absurd h (by simp)
  · exact absurd h (by simp)

theorem read_eq_ok {d : Disk} {p : Path} {bytes : Bytes} (h : d.read p = .ok bytes) :
    d.locate p = .ok (d.placeOf p) ∧ d.entryAt? (d.placeOf p) = some (.file bytes) := by
  rw [read, except_bind_eq_ok] at h
  obtain ⟨e, he, h⟩ := h
  rw [stat, except_bind_eq_ok] at he
  obtain ⟨q, hq, he⟩ := he
  obtain rfl := (locate_eq_ok.mp hq).2.2
  split at he
  · next e' he' =>
    cases Except.ok.inj he
    split at h
    · exact ⟨hq, by rw [he', ← Except.ok.inj h]⟩
    · exact absurd h (by simp)
  · exact absurd he (by simp)

theorem stat_of_read {d : Disk} {p : Path} {bytes : Bytes} (h : d.read p = .ok bytes) :
    d.stat p = .ok (.file bytes) := by
  rw [Disk.read, except_bind_eq_ok] at h
  obtain ⟨e, hstat, he⟩ := h
  cases e with
  | file bs => rw [hstat, Except.ok.inj he]
  | dir => cases he

theorem exists?_of_stat {d : Disk} {p : Path} {e : Entry} (h : d.stat p = .ok e) :
    d.exists? p = .ok true := by
  rw [exists?, probe, h]
  rfl

theorem isFile?_of_read {d : Disk} {p : Path} {bytes : Bytes} (h : d.read p = .ok bytes) :
    d.isFile? p = .ok true := by
  rw [isFile?, probe, stat_of_read h]
  rfl

theorem exists?_eq_ok {d : Disk} {p : Path} {b : Bool} (h : d.exists? p = .ok b) :
    ∃ e, d.probe p = .ok e ∧ b = e.isSome := by
  rw [exists?] at h
  obtain ⟨e, he, hb⟩ := except_map_eq_ok.mp h
  exact ⟨e, he, hb.symm⟩

theorem isDirectory?_eq_ok {d : Disk} {p : Path} {b : Bool} (h : d.isDirectory? p = .ok b) :
    ∃ e, d.probe p = .ok e ∧ b = (e == some .dir) := by
  rw [isDirectory?] at h
  obtain ⟨e, he, hb⟩ := except_map_eq_ok.mp h
  exact ⟨e, he, hb.symm⟩

/-- A path to a directory can be followed to it. -/
theorem locate_of_isDirectory? {d : Disk} {p : Path} (h : d.isDirectory? p = .ok true) :
    d.locate p = .ok (d.placeOf p) ∧ d.entryAt? (d.placeOf p) = some .dir := by
  obtain ⟨e, he, hb⟩ := isDirectory?_eq_ok h
  obtain rfl : e = some .dir := beq_iff_eq.mp hb.symm
  rw [probe] at he
  split at he
  · next e hstat =>
    cases Except.ok.inj he
    rw [stat, except_bind_eq_ok] at hstat
    obtain ⟨q, hq, hstat⟩ := hstat
    obtain rfl := (locate_eq_ok.mp hq).2.2
    split at hstat
    · next e hentry => exact ⟨hq, by rw [hentry, Except.ok.inj hstat]⟩
    · cases hstat
  · cases he
  · cases he

end Disk

end UberPackage
