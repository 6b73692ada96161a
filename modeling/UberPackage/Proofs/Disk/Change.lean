/-
  What changes of a disk leave.

  Making directories adds directories on the way to the last one and nothing else
  (`Disk.makeDirectories_ok`).  Writing and copying a file change what stands at its place and
  nothing else: the temporary file is gone (`Disk.writeFile_ok`, `Disk.copyFile_ok`); what has been
  written is read (`Disk.read_writeFile`).
-/
import UberPackage.Disk.Change
import UberPackage.Proofs.Disk.Locate

namespace UberPackage.Disk

theorem outcome_ok {d d' : Disk} {x : Except FileFault Disk} (h : d.outcome x = (d', none)) :
    x = .ok d' := by
  cases x with
  | error f => exact absurd (congrArg Prod.snd h) (by simp [outcome])
  | ok e => rw [show e = d' from congrArg Prod.fst h]

theorem Outcome.andThen_ok {o : Outcome} {next : Disk → Outcome} {d' : Disk}
    (h : o.andThen next = (d', none)) : ∃ d, o = (d, none) ∧ next d = (d', none) := by
  obtain ⟨d, f⟩ := o
  cases f with
  | none => exact ⟨d, rfl, h⟩
  | some f => exact absurd (congrArg Prod.snd h) (by simp [andThen])

/-! ## Directories -/

/-- Directories have been added at some of the places, and nothing else has changed. -/
structure Opens (d d' : Disk) (places : Place → Prop) : Prop where
  cwd : d'.cwd = d.cwd
  tag : d'.tag = d.tag
  distinct : d.Distinct → d'.Distinct
  entries : ∀ q, d'.entryAt? q = d.entryAt? q ∨
    (d.entryAt? q = none ∧ d'.entryAt? q = some .dir ∧ places q)

/-- The places on the way along a path. -/
def Way (d : Disk) (p : Path) (q : Place) : Prop :=
  ∃ parts, parts <+: p.parts ∧ parts.foldl walkPart (d.startOf p) = q

theorem way_placeOf (d : Disk) (p : Path) : d.Way p (d.placeOf p) :=
  ⟨p.parts, List.prefix_refl _, rfl⟩

theorem way_of_parent {d : Disk} {p : Path} {q : Place} (h : d.Way p.parent q) : d.Way p q := by
  obtain ⟨parts, hparts, rfl⟩ := h
  exact ⟨parts, hparts.trans (List.dropLast_prefix _), rfl⟩

namespace Opens

variable {d d' d'' : Disk} {places : Place → Prop}

theorem refl (d : Disk) (places : Place → Prop) : Opens d d places :=
  ⟨rfl, rfl, id, fun _ => Or.inl rfl⟩

theorem trans (h : Opens d d' places) (h' : Opens d' d'' places) : Opens d d'' places where
  cwd := h'.cwd.trans h.cwd
  tag := h'.tag.trans h.tag
  distinct hd := h'.distinct (h.distinct hd)
  entries q := by
    rcases h.entries q with he | ⟨hn, hd, hq⟩
    · rcases h'.entries q with he' | ⟨hn', hd', hq'⟩
      · exact Or.inl (he'.trans he)
      · exact Or.inr ⟨he ▸ hn', hd', hq'⟩
    · rcases h'.entries q with he' | ⟨hn', -, -⟩
      · exact Or.inr ⟨hn, he'.trans hd, hq⟩
      · rw [hd] at hn'
        exact absurd hn' (by simp)

theorem mono (h : Opens d d' places) {more : Place → Prop} (hm : ∀ q, places q → more q) :
    Opens d d' more where
  cwd := h.cwd
  tag := h.tag
  distinct := h.distinct
  entries q := (h.entries q).imp_right fun ⟨hn, hd, hq⟩ => ⟨hn, hd, hm q hq⟩

/-- What stood before stands on. -/
theorem keeps (h : Opens d d' places) {q : Place} {e : Entry} (he : d.entryAt? q = some e) :
    d'.entryAt? q = some e := by
  rcases h.entries q with hq | ⟨hn, -, -⟩
  · rw [hq, he]
  · rw [he] at hn
    exact absurd hn (by simp)

theorem startOf (h : Opens d d' places) (p : Path) : d'.startOf p = d.startOf p := by
  rw [Disk.startOf, Disk.startOf, h.cwd]

theorem placeOf (h : Opens d d' places) (p : Path) : d'.placeOf p = d.placeOf p := by
  rw [Disk.placeOf, Disk.placeOf, h.startOf]

theorem way (h : Opens d d' places) (p : Path) : d'.Way p = d.Way p := by
  funext q
  rw [Disk.Way, Disk.Way, h.startOf]

end Opens

theorem Opens.leads {d d' : Disk} {places : Place → Prop} (h : Opens d d' places) {p : Path}
    (hp : d.Leads p) : d'.Leads p :=
  hp.mono h.cwd fun _ hq => h.keeps hq

/-- All places on the way but the last are directories. -/
theorem Leads.dir_of_way {d : Disk} {p : Path} (h : d.Leads p) {q : Place} (hq : d.Way p q) :
    q = d.placeOf p ∨ d.entryAt? q = some .dir := by
  obtain ⟨parts, ⟨rest, hrest⟩, rfl⟩ := hq
  cases rest with
  | nil =>
    rw [List.append_nil] at hrest
    exact Or.inl (by rw [hrest, placeOf])
  | cons part rest =>
    rw [Leads, ← hrest, List.foldlM_append, except_bind_eq_ok] at h
    obtain ⟨here, hparts, h⟩ := h
    rw [List.foldlM_cons, except_bind_eq_ok] at h
    obtain ⟨next, hstep, -⟩ := h
    rw [← foldlM_step_ok hparts]
    exact Or.inr (step_ok hstep).1

/-- The way down to a name leads over the place that one goes down from. -/
theorem way_down {d : Disk} {p : Path} {y q : Place} (hy : ∀ n ∈ y, Text.IsFileName n)
    (h : d.Way (p.down y) q) : d.Way p q ∨ ∃ x, x <+: y ∧ q = d.placeOf p ++ x := by
  obtain ⟨parts, ⟨rest, hrest⟩, rfl⟩ := h
  rcases List.append_eq_append_iff.mp hrest with ⟨a, ha, -⟩ | ⟨a, rfl, ha⟩
  · exact Or.inl ⟨parts, ⟨a, ha.symm⟩, rfl⟩
  · refine Or.inr ⟨a, ⟨rest, ha.symm⟩, ?_⟩
    exact placeOf_down (d := d) (p := p) fun n hn =>
      hy n (by rw [ha]; exact List.mem_append_left _ hn)

/-- A directory has been made, and those above it that were missing. -/
structure Makes (d d' : Disk) (p : Path) : Prop extends Opens d d' (d.Way p) where
  dir : d'.entryAt? (d.placeOf p) = some .dir
  leads' : d'.Leads p

theorem makeDirectory_ok {d d' : Disk} {p : Path} (h : d.makeDirectory p = .ok d') :
    Makes d d' p := by
  rw [makeDirectory, except_bind_eq_ok] at h
  obtain ⟨q, hq, h⟩ := h
  obtain ⟨-, hleads, rfl⟩ := locate_eq_ok.mp hq
  split at h
  · exact absurd h (by simp)
  · next hnone =>
    have hne := ne_nil_of_free hnone
    rw [← Except.ok.inj h]
    have hopen : Opens d (d.put (d.placeOf p) .dir) (d.Way p) := by
      refine ⟨rfl, rfl, fun hd => hd.put _ _, fun q => ?_⟩
      rw [entryAt?_put _ hne]
      by_cases hq : q = d.placeOf p
      · rw [if_pos hq]
        exact Or.inr ⟨hq ▸ hnone, rfl, hq ▸ way_placeOf d p⟩
      · rw [if_neg hq]
        exact Or.inl rfl
    exact ⟨hopen, by rw [entryAt?_put _ hne, if_pos rfl], hopen.leads hleads⟩

theorem tolerated_ok {d d' : Disk} {p : Path} {f : FileFault} (h : d.tolerated p f = (d', none)) :
    d' = d ∧ d.entryAt? (d.placeOf p) = some .dir ∧ d.Leads p := by
  cases f with
  | refused e path =>
    rw [tolerated] at h
    split at h
    · next hdir =>
      obtain ⟨hlocate, hentry⟩ := locate_of_isDirectory? hdir
      exact ⟨(congrArg Prod.fst h).symm, hentry, (locate_eq_ok.mp hlocate).2.1⟩
    · exact absurd (congrArg Prod.snd h) (by simp)
    · exact absurd (congrArg Prod.snd h) (by simp)
  | _ => exact absurd (congrArg Prod.snd h) (by simp [tolerated])

theorem makeOrTolerate_ok {d d' : Disk} {p : Path} :
    (∀ e, d.makeDirectory p = .ok e → (e, none) = (d', (none : Option FileFault)) → Makes d d' p) ∧
    ∀ f, d.tolerated p f = (d', none) → Makes d d' p := by
  refine ⟨fun e hm he => ?_, fun f h => ?_⟩
  · rw [← (Prod.mk.inj he).1]
    exact makeDirectory_ok hm
  · obtain ⟨rfl, hdir, hleads⟩ := tolerated_ok h
    exact ⟨.refl _ _, hdir, hleads⟩

theorem makeDirectoriesAbove_ok {n : Nat} {d d' : Disk} {p : Path}
    (h : makeDirectoriesAbove n d p = (d', none)) : Makes d d' p := by
  induction n generalizing d d' p with
  | zero =>
    rw [makeDirectoriesAbove] at h
    split at h
    · next e hm => exact makeOrTolerate_ok.1 e hm h
    · next f _ => exact makeOrTolerate_ok.2 f h
  | succ n ih =>
    rw [makeDirectoriesAbove] at h
    split at h
    · next e hm => exact makeOrTolerate_ok.1 e hm h
    · split at h
      · exact absurd (congrArg Prod.snd h) (by simp)
      · obtain ⟨e, hparent, h⟩ := Outcome.andThen_ok h
        have hopen : Opens d e (d.Way p) := (ih hparent).toOpens.mono fun _ => way_of_parent
        have hlast : Makes e d' p := by
          split at h
          · next e' hm => exact makeOrTolerate_ok.1 e' hm h
          · next f _ => exact makeOrTolerate_ok.2 f h
        refine ⟨hopen.trans (hopen.way p ▸ hlast.toOpens), ?_, hlast.leads'⟩
        rw [← hopen.placeOf]
        exact hlast.dir
    · next f _ _ => exact makeOrTolerate_ok.2 f h

theorem makeDirectories_ok {d d' : Disk} {p : Path} (h : d.makeDirectories p = (d', none)) :
    Makes d d' p :=
  makeDirectoriesAbove_ok h

/-! ## Files -/

/-- A file has been put at the place, and nothing else has changed. -/
structure Writes (d d' : Disk) (place : Place) (bytes : Bytes) : Prop where
  cwd : d'.cwd = d.cwd
  tag : d'.tag = d.tag
  distinct : d.Distinct → d'.Distinct
  notDir : d.entryAt? place ≠ some .dir
  entries : ∀ q, d'.entryAt? q = if q = place then some (.file bytes) else d.entryAt? q

/-- A file that is filled and moved: the temporary file stands where nothing stood. -/
theorem temporary_of_atomically {d d' : Disk} {target : Path} {fill : Disk → Path → Outcome}
    (h : d.atomically target fill = (d', none)) :
    d.locate (d.temporary target) = .ok (d.placeOf (d.temporary target)) ∧
      d.entryAt? (d.placeOf (d.temporary target)) = none ∧
      ∃ e, fill (d.put (d.placeOf (d.temporary target)) (.file []))
        (d.temporary target) = (e, none) ∧
        e.move (d.temporary target) target = .ok d' := by
  rw [atomically] at h
  dsimp only at h
  generalize d.temporary target = temp at h ⊢
  split at h
  · exact absurd (congrArg Prod.snd h) (by simp)
  · next created hcreate =>
    rw [create, except_bind_eq_ok] at hcreate
    obtain ⟨q, hq, hcreate⟩ := hcreate
    obtain rfl := (locate_eq_ok.mp hq).2.2
    split at hcreate
    · exact absurd hcreate (by simp)
    · next hnone =>
      rw [← Except.ok.inj hcreate] at h
      split at h
      · next ho =>
        obtain ⟨e, he, hmove⟩ := Outcome.andThen_ok (Prod.ext (Prod.mk.inj h).1 ho)
        exact ⟨hq, hnone, e, he, outcome_ok hmove⟩
      · exact absurd (congrArg Prod.snd h) (by simp)

theorem atomically_ok {d d' : Disk} {target : Path} {fill : Disk → Path → Outcome}
    (h : d.atomically target fill = (d', none)) :
    ∃ temp e, d.entryAt? (d.placeOf temp) = none ∧
      fill (d.put (d.placeOf temp) (.file [])) temp = (e, none) ∧ e.move temp target = .ok d' := by
  obtain ⟨-, hnone, e, hfill, hmove⟩ := temporary_of_atomically h
  exact ⟨_, e, hnone, hfill, hmove⟩

/-- Moving a file that stands where nothing stood before leaves the target alone changed. -/
theorem move_ok {d e d' : Disk} {temp target : Path} {bytes : Bytes}
    (hnone : d.entryAt? (d.placeOf temp) = none)
    (he : e = (d.put (d.placeOf temp) (.file [])).put (d.placeOf temp) (.file bytes))
    (h : e.move temp target = .ok d') : Writes d d' (d.placeOf target) bytes := by
  have hne := ne_nil_of_free hnone
  have hentry : ∀ q, e.entryAt? q =
      if q = d.placeOf temp then some (.file bytes) else d.entryAt? q := fun q => by
    rw [he, entryAt?_put _ hne, entryAt?_put _ hne]
    split <;> rfl
  have hplace : ∀ p, e.placeOf p = d.placeOf p := fun p => by rw [he]; rfl
  rw [move, except_bind_eq_ok] at h
  obtain ⟨read, hread, h⟩ := h
  rw [except_bind_eq_ok] at h
  obtain ⟨q, hq, h⟩ := h
  have hbytes : read = bytes := by
    have hr := (read_eq_ok hread).2
    rw [hplace, hentry, if_pos rfl] at hr
    exact (Entry.file.inj (Option.some.inj hr)).symm
  have hqt : q = d.placeOf temp := by rw [(locate_eq_ok.mp hq).2.2, hplace]
  subst hbytes hqt
  dsimp only at h
  split at h
  · exact absurd h (by simp)
  · exact absurd h (by simp)
  · next place hlocate =>
    have hpt : place = d.placeOf target := by rw [(locate_eq_ok.mp hlocate).2.2, hplace]
    subst hpt
    split at h
    · exact absurd h (by simp)
    · next hdir =>
      have htop : d.placeOf target ≠ [] := fun ht => hdir (by rw [ht, entryAt?_top])
      rw [← Except.ok.inj h]
      refine ⟨by rw [he]; rfl, by rw [he]; rfl, fun hd => ?_, fun hd => hdir ?_, fun r => ?_⟩
      · rw [he]
        exact (((hd.put _ _).put _ _).drop _).put _ _
      · rw [hentry, hd]
        split
        · next ht => rw [ht, hnone] at hd; exact absurd hd (by simp)
        · rfl
      · rw [entryAt?_put _ htop, entryAt?_drop, hentry]
        by_cases hr : r = d.placeOf temp
        · simp [hr, hne, hnone]
        · simp [hr]

theorem overwrite_ok {d d' : Disk} {p : Path} {bytes : Bytes}
    (h : overwrite bytes d p = (d', none)) : d' = d.put (d.placeOf p) (.file bytes) := by
  have hput := outcome_ok h
  rw [except_bind_eq_ok] at hput
  obtain ⟨q, hq, hput⟩ := hput
  rw [← Except.ok.inj hput, (locate_eq_ok.mp hq).2.2]

theorem overwriteFrom_ok {d d' : Disk} {source p : Path}
    (h : overwriteFrom source d p = (d', none)) :
    ∃ bytes, d.read source = .ok bytes ∧ d' = d.put (d.placeOf p) (.file bytes) := by
  rw [overwriteFrom] at h
  split at h
  · next bytes hread => exact ⟨bytes, hread, overwrite_ok h⟩
  · exact absurd (congrArg Prod.snd h) (by simp)

theorem writeFile_ok {d d' : Disk} {target : Path} {bytes : Bytes}
    (h : d.writeFile target bytes = (d', none)) : Writes d d' (d.placeOf target) bytes := by
  obtain ⟨temp, e, hnone, hfill, hmove⟩ := atomically_ok h
  exact move_ok hnone (overwrite_ok hfill) hmove

theorem copyFile_ok {d d' : Disk} {source target : Path}
    (hsource : (d.entryAt? (d.placeOf source)).isSome = true)
    (h : d.copyFile source target = (d', none)) :
    ∃ bytes, d.entryAt? (d.placeOf source) = some (.file bytes) ∧
      Writes d d' (d.placeOf target) bytes := by
  obtain ⟨temp, e, hnone, hfill, hmove⟩ := atomically_ok h
  have hne := ne_nil_of_free hnone
  obtain ⟨bytes, hread, he⟩ := overwriteFrom_ok hfill
  refine ⟨bytes, ?_, move_ok hnone he hmove⟩
  have hr := (read_eq_ok hread).2
  have hplace : (d.put (d.placeOf temp) (.file [])).placeOf source = d.placeOf source := rfl
  -- the temporary file is not the source: nothing stood there
  rw [hplace, entryAt?_put _ hne, if_neg fun hs =>
    by rw [hs, hnone] at hsource; simp at hsource] at hr
  exact hr

/-- What has been written is all that differs. -/
theorem Writes.leads {d d' : Disk} {place : Place} {bytes : Bytes} (h : Writes d d' place bytes)
    {p : Path} (hp : d.Leads p) : d'.Leads p := by
  refine hp.mono h.cwd fun q hq => ?_
  have hne : q ≠ place := fun he => h.notDir (by rw [← he, hq])
  rw [h.entries, if_neg hne, hq]

/-- Whoever moves a file over a target can follow the path to it. -/
theorem locate_of_move {d d' : Disk} {temp target : Path} (h : d.move temp target = .ok d') :
    d.locate target = .ok (d.placeOf target) := by
  rw [move, except_bind_eq_ok] at h
  obtain ⟨_, -, h⟩ := h
  rw [except_bind_eq_ok] at h
  obtain ⟨_, -, h⟩ := h
  dsimp only at h
  split at h
  · cases h
  · cases h
  · next place hplace => rw [hplace, (locate_eq_ok.mp hplace).2.2]

/-- What is read of a target over which a new file has been moved. -/
theorem read_of_move {d e d' : Disk} {temp target : Path} {bytes : Bytes}
    (hnone : d.entryAt? (d.placeOf temp) = none)
    (he : e = (d.put (d.placeOf temp) (.file [])).put (d.placeOf temp) (.file bytes))
    (h : e.move temp target = .ok d') : d'.read target = .ok bytes := by
  have hwrites := move_ok hnone he h
  have hne := ne_nil_of_free hnone
  -- the disk on which the new file is moved has the directories of the first one
  have hdirs : ∀ q, e.entryAt? q = some .dir → d.entryAt? q = some .dir := fun q hq => by
    rw [he, entryAt?_put _ hne, entryAt?_put _ hne] at hq
    split at hq
    · cases hq
    · exact hq
  have hcwd : d.cwd = e.cwd := by rw [he]; rfl
  obtain ⟨hname, hleads, -⟩ := locate_eq_ok.mp (locate_of_move h)
  have hplace : d'.placeOf target = d.placeOf target := by
    rw [placeOf, placeOf, startOf, startOf, hwrites.cwd]
  have hlocate := locate_eq_ok.mpr ⟨hname, hwrites.leads (hleads.mono hcwd hdirs), rfl⟩
  rw [Disk.read, Disk.stat, hlocate, except_ok_bind, hplace, hwrites.entries, if_pos rfl]
  rfl

/-- **A file that has been written holds what was written.** -/
theorem read_writeFile {d d' : Disk} {target : Path} {bytes : Bytes}
    (h : d.writeFile target bytes = (d', none)) : d'.read target = .ok bytes := by
  obtain ⟨temp, e, hnone, hfill, hmove⟩ := atomically_ok h
  exact read_of_move hnone (overwrite_ok hfill) hmove

end UberPackage.Disk
