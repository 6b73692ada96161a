/-
  Disks as file systems have them.

  On a file tree (`Disk.IsFileTree`) no place stands twice, all names are file names and what is not
  the top stands in a directory.  Making directories, writing and copying files and removing trees
  leave file trees (`IsFileTree.makes`, `IsFileTree.writes`, `IsFileTree.dropTree`).

  All of this changes some places only (`Disk.Frame`).  Nothing takes anything away but removing
  trees: on a disk that grows (`Disk.Grows`) what stood stands on, as a file or as a directory.
  Writing and copying also grow a disk when they fail, since they change the target as a whole or
  nothing (`Whole.cases`).
-/
import Mathlib.Order.Defs.Unbundled
import UberPackage.Proofs.Disk.Success
import UberPackage.Proofs.Disk.Whole

namespace UberPackage

/-! ## Places apart -/

/-- Neither place is the other or inside of it. -/
def Place.Unrelated (x y : Place) : Prop := ¬ x <+: y ∧ ¬ y <+: x

instance (x y : Place) : Decidable (Place.Unrelated x y) := inferInstanceAs (Decidable (_ ∧ _))

namespace Place.Unrelated

variable {x y : Place}

theorem symm (h : Unrelated x y) : Unrelated y x := ⟨h.2, h.1⟩

theorem ne_nil (h : Unrelated x y) : x ≠ [] := fun he => h.1 (he ▸ List.nil_prefix)

/-- What is below a place is as unrelated as the place. -/
theorem below (h : Unrelated x y) (z : Place) : Unrelated x (y ++ z) := by
  refine ⟨fun hin => ?_, fun habove => h.2 ((List.prefix_append y z).trans habove)⟩
  rcases List.prefix_or_prefix_of_prefix hin (List.prefix_append y z) with hp | hp
  · exact h.1 hp
  · exact h.2 hp

end Place.Unrelated

namespace Disk

/-! ## File trees -/

/-- Files and directories as file systems have them. -/
structure IsFileTree (d : Disk) : Prop where
  distinct : d.Distinct
  tree : d.IsTree []
  tag : Code.char '/' ∉ d.tag

namespace IsFileTree

variable {d d' : Disk} {p : Path} {x y : Place} {n : Text}

theorem fileName (h : d.IsFileTree) (hx : (d.entryAt? (x ++ [n])).isSome = true) : n.IsFileName :=
  h.tree.names x n hx

theorem parent (h : d.IsFileTree) (hx : (d.entryAt? (x ++ [n])).isSome = true) :
    d.entryAt? x = some .dir :=
  h.tree.dirs x n hx

theorem fileNames (h : d.IsFileTree) (hx : (d.entryAt? x).isSome = true) :
    ∀ n ∈ x, Text.IsFileName n :=
  h.tree.fileNames hx

/-- Above what stands are directories. -/
theorem dir_of_prefix (h : d.IsFileTree) (hxy : x <+: y) (hne : x ≠ y)
    (hy : (d.entryAt? y).isSome = true) : d.entryAt? x = some .dir := by
  obtain ⟨z, rfl⟩ := hxy
  have hz : z ≠ [] := fun hz => hne (by rw [hz, List.append_nil])
  exact h.tree.dir_of_prefix (x := x) hz hy

/-- Below what is no directory nothing stands. -/
theorem none_of_prefix (h : d.IsFileTree) (hxy : x <+: y) (hne : x ≠ y)
    (hx : d.entryAt? x ≠ some .dir) : d.entryAt? y = none := by
  cases hy : d.entryAt? y with
  | none => rfl
  | some e => exact absurd (h.dir_of_prefix hxy hne (by rw [hy]; rfl)) hx

theorem isTree (h : d.IsFileTree) (top : Place) : d.IsTree top where
  names _ _ hy := h.fileName hy
  dirs _ _ hy := h.parent hy

/-- What stands can be reached. -/
theorem reaches (h : d.IsFileTree) (hx : (d.entryAt? x).isSome = true) : d.Reaches x := by
  intro y n hy
  have hyn : (d.entryAt? (y ++ [n])).isSome = true := by
    by_cases he : y ++ [n] = x
    · rwa [he]
    · rw [h.dir_of_prefix hy he hx]
      rfl
  exact ⟨h.parent hyn, (h.fileName hyn).size_le⟩

/-- Looking for a path finds what stands there, unless the path is too long. -/
theorem probe (h : d.IsFileTree) (hp : p.IsResolved) {e : Option Entry} (he : d.probe p = .ok e) :
    e = d.entryAt? p.parts := by
  cases hl : d.locate p with
  | ok q =>
    obtain rfl := (locate_resolved hp).mp hl |>.2.2
    rw [Disk.probe, stat, hl, except_ok_bind] at he
    cases hq : d.entryAt? p.parts with
    | none =>
      rw [hq] at he
      exact (Except.ok.inj he).symm
    | some e' =>
      rw [hq] at he
      exact (Except.ok.inj he).symm
  | error f =>
    have hnone : e = none := by
      rw [Disk.probe, stat, hl] at he
      split at he
      · next hok => cases hok
      · cases he
      · exact (Except.ok.inj he).symm
    rw [hnone]
    cases hq : d.entryAt? p.parts with
    | none => rfl
    | some e' =>
      -- what stands can be reached, so only the length can be wrong with the path
      exfalso
      have hsome : (d.entryAt? p.parts).isSome = true := by rw [hq]; rfl
      have hreaches := h.reaches hsome
      have hunits : p.HasNameUnits := fun part hpart => (h.fileNames hsome part hpart).units
      rcases Path.nameFault?_of_hasNameUnits hunits with hname | hname
      · rw [(locate_resolved hp).mpr ⟨hname, hreaches, rfl⟩] at hl
        cases hl
      · rw [Disk.probe, stat, locate, hname] at he
        cases he

theorem exists? (h : d.IsFileTree) (hp : p.IsResolved) {b : Bool} (hb : d.exists? p = .ok b) :
    b = (d.entryAt? p.parts).isSome := by
  obtain ⟨e, he, rfl⟩ := exists?_eq_ok hb
  rw [h.probe hp he]

theorem isDirectory? (h : d.IsFileTree) (hp : p.IsResolved) {b : Bool}
    (hb : d.isDirectory? p = .ok b) : b = (d.entryAt? p.parts == some .dir) := by
  obtain ⟨e, he, rfl⟩ := isDirectory?_eq_ok hb
  rw [h.probe hp he]

/-- A path that is not too long finds what stands where it leads. -/
theorem stat (h : d.IsFileTree) (hp : p.IsResolved) (hn : p.nameFault? = none) {e : Entry}
    (he : d.entryAt? p.parts = some e) : d.stat p = .ok e := by
  have hl : d.locate p = .ok p.parts :=
    (locate_resolved hp).mpr ⟨hn, h.reaches (by rw [he]; rfl), rfl⟩
  rw [Disk.stat, hl, except_ok_bind, he]
  rfl

/-- File trees that have the same where a path leads have the same along it. -/
theorem sameAlong (h : d.IsFileTree) (h' : d'.IsFileTree)
    (hsome : (d.entryAt? p.parts).isSome = true) (he : d'.entryAt? p.parts = d.entryAt? p.parts) :
    SameAlong d d' p := by
  intro q hq
  by_cases hne : q = p.parts
  · rw [hne, he]
  · rw [h.dir_of_prefix hq hne hsome, h'.dir_of_prefix hq hne (he ▸ hsome)]

/-- A disk whose entries all stand as they should is a file tree. -/
theorem of_entries (h : d.IsFileTree) (hd : d'.Distinct) (ht : d'.tag = d.tag)
    (hnew : ∀ x n, (d'.entryAt? (x ++ [n])).isSome = true →
      n.IsFileName ∧ d'.entryAt? x = some .dir) : d'.IsFileTree where
  distinct := hd
  tree := ⟨fun x n hx => (hnew x n hx).1, fun x n hx => (hnew x n hx).2⟩
  tag := ht ▸ h.tag

end IsFileTree

/-- The parts of a path that can be located are file names. -/
theorem isFileName_of_reaches {d : Disk} {p : Path} (hp : p.IsResolved) (hn : p.nameFault? = none)
    (hr : d.Reaches p.parts) : ∀ n ∈ p.parts, Text.IsFileName n := by
  intro n hm
  have hc := hp.parts n hm
  exact ⟨hc.ne_nil, hc.ne_dot, hc.ne_dots, hc.no_slash,
    Path.hasNameUnits_of_nameFault? hn n hm, hr.size n hm⟩

/-! ## What changes leave -/

/-- Making a directory has looked at its path. -/
theorem nameFault?_of_tolerated {d d' : Disk} {p : Path} {f : FileFault}
    (h : d.tolerated p f = (d', none)) : p.nameFault? = none := by
  cases f with
  | refused e path =>
    rw [tolerated] at h
    split at h
    · next hdir => exact (locate_eq_ok.mp (locate_of_isDirectory? hdir).1).1
    · cases h
    · cases h
  | _ => cases h

theorem nameFault?_of_makeDirectory {d d' : Disk} {p : Path} (h : d.makeDirectory p = .ok d') :
    p.nameFault? = none := by
  rw [makeDirectory, except_bind_eq_ok] at h
  obtain ⟨q, hq, -⟩ := h
  exact (locate_eq_ok.mp hq).1

theorem nameFault?_of_makeDirectories {d d' : Disk} {p : Path}
    (h : d.makeDirectories p = (d', none)) : p.nameFault? = none := by
  rw [makeDirectories] at h
  cases hn : p.parts.length with
  | zero =>
    rw [hn, makeDirectoriesAbove] at h
    split at h
    · next hm => exact nameFault?_of_makeDirectory hm
    · exact nameFault?_of_tolerated h
  | succ n =>
    rw [hn, makeDirectoriesAbove] at h
    split at h
    · next hm => exact nameFault?_of_makeDirectory hm
    · split at h
      · cases h
      · obtain ⟨e, -, h⟩ := Outcome.andThen_ok h
        split at h
        · next hm => exact nameFault?_of_makeDirectory hm
        · exact nameFault?_of_tolerated h
    · exact nameFault?_of_tolerated h

/-- Directories may have been made also when making them has failed. -/
theorem opens_makeDirectories (d : Disk) (p : Path) :
    Opens d (d.makeDirectories p).1 (d.Way p) := by
  have hsame : ∀ (d : Disk) (q : Path) (f : FileFault), (d.tolerated q f).1 = d := by
    intro d q f
    cases f with
    | refused e path => rw [tolerated]; split <;> rfl
    | _ => rfl
  have hlast : ∀ (d : Disk) (q : Path), Opens d (makeDirectoriesAbove 0 d q).1 (d.Way q) := by
    intro d q
    rw [makeDirectoriesAbove]
    split
    · next e hm => exact (makeDirectory_ok hm).toOpens
    · rw [hsame]
      exact .refl _ _
  have hall :
      ∀ (n : Nat) (d : Disk) (q : Path), Opens d (makeDirectoriesAbove n d q).1 (d.Way q) := by
    intro n
    induction n with
    | zero => exact fun d q => hlast d q
    | succ n ih =>
      intro d q
      rw [makeDirectoriesAbove]
      split
      · next e hm => exact (makeDirectory_ok hm).toOpens
      · split
        · exact .refl _ _
        · have hparent := (ih d q.parent).mono fun _ => way_of_parent
          generalize makeDirectoriesAbove n d q.parent = o at hparent ⊢
          obtain ⟨e, f⟩ := o
          cases f with
          | some f => exact hparent
          | none => exact hparent.trans (hparent.way q ▸ hlast e q)
      · rw [hsame]
        exact .refl _ _
  exact hall _ d p

/-- Directories stay when a file is written. -/
theorem Writes.dir {d d' : Disk} {place q : Place} {bytes : Bytes} (h : Writes d d' place bytes)
    (hq : d.entryAt? q = some .dir) : d'.entryAt? q = some .dir := by
  have hne : q ≠ place := by
    rintro rfl
    exact h.notDir hq
  rw [h.entries, if_neg hne, hq]

namespace IsFileTree

variable {d d' : Disk} {p : Path}

theorem makes (h : d.IsFileTree) (hp : p.IsResolved) (hn : p.nameFault? = none)
    (hm : Makes d d' p) : d'.IsFileTree := by
  have hopens := hm.toOpens
  have hreaches := (leads_resolved hp).mp hm.leads'
  refine h.of_entries (hopens.distinct h.distinct) hopens.tag fun x n hx => ?_
  rcases hopens.entries (x ++ [n]) with he | ⟨-, -, hway⟩
  · rw [he] at hx
    exact ⟨h.fileName hx, hopens.keeps (h.parent hx)⟩
  · have hin := (way_resolved hp).mp hway
    exact ⟨isFileName_of_reaches hp hn hreaches n
      (hin.subset (List.mem_append_right _ List.mem_cons_self)),
      (hreaches x n hin).1⟩

theorem writes (h : d.IsFileTree) (hp : p.IsResolved) (hl : d.locate p = .ok p.parts)
    {bytes : Bytes} (hw : Writes d d' p.parts bytes) : d'.IsFileTree := by
  obtain ⟨hn, hreaches, -⟩ := (locate_resolved hp).mp hl
  have hdir : ∀ x, d.entryAt? x = some .dir → d'.entryAt? x = some .dir := fun x hx => hw.dir hx
  refine h.of_entries (hw.distinct h.distinct) hw.tag fun x n hx => ?_
  by_cases he : x ++ [n] = p.parts
  · have hin : n ∈ p.parts := he ▸ List.mem_append_right _ List.mem_cons_self
    exact ⟨isFileName_of_reaches hp hn hreaches n hin,
      hdir x (hreaches x n (he ▸ List.prefix_refl _)).1⟩
  · rw [hw.entries, if_neg he] at hx
    exact ⟨h.fileName hx, hdir x (h.parent hx)⟩

theorem dropTree (h : d.IsFileTree) (place : Place) : (d.dropTree place).IsFileTree := by
  refine h.of_entries (h.distinct.dropTree place) rfl fun x n hx => ?_
  rw [entryAt?_dropTree] at hx
  split at hx
  · cases hx
  · next hkept =>
    refine ⟨h.fileName hx, ?_⟩
    rw [entryAt?_dropTree, if_neg, h.parent hx]
    exact fun hd => hkept ⟨hd.1.trans (List.prefix_append _ _), by simp⟩

end IsFileTree

/-! ## Growing -/

/-- The disk has changed at some places, there are new directories at others, and nothing else has
changed. -/
def Frame (inside above : Place → Prop) (d d' : Disk) : Prop :=
  ∀ q, d'.entryAt? q = d.entryAt? q ∨ inside q ∨
    (above q ∧ d.entryAt? q = none ∧ d'.entryAt? q = some .dir)

namespace Frame

variable {d d' d'' : Disk} {inside above : Place → Prop}

theorem trans (h : Frame inside above d d') (h' : Frame inside above d' d'') :
    Frame inside above d d'' := by
  intro q
  rcases h q with he | hin | ⟨ha, hn, hd⟩
  · rcases h' q with he' | hin | ⟨ha, hn, hd⟩
    · exact Or.inl (he'.trans he)
    · exact Or.inr (Or.inl hin)
    · exact Or.inr (Or.inr ⟨ha, he ▸ hn, hd⟩)
  · exact Or.inr (Or.inl hin)
  · rcases h' q with he' | hin | ⟨-, hn', -⟩
    · exact Or.inr (Or.inr ⟨ha, hn, he'.trans hd⟩)
    · exact Or.inr (Or.inl hin)
    · rw [hd] at hn'
      cases hn'

instance : IsPreorder Disk (Frame inside above) where
  refl _ _ := Or.inl rfl
  trans _ _ _ := trans

theorem mono (h : Frame inside above d d') {inside' above' : Place → Prop}
    (hi : ∀ q, inside q → inside' q) (ha : ∀ q, above q → inside' q ∨ above' q) :
    Frame inside' above' d d' := by
  intro q
  rcases h q with he | hin | ⟨hq, hn, hd⟩
  · exact Or.inl he
  · exact Or.inr (Or.inl (hi q hin))
  · exact (ha q hq).elim (fun hin => Or.inr (Or.inl hin)) fun hab => Or.inr (Or.inr ⟨hab, hn, hd⟩)

/-- Removing a tree changes what is inside of it. -/
theorem dropTree (d : Disk) {place : Place} (hi : ∀ q, place <+: q → inside q) :
    Frame inside above d (d.dropTree place) := by
  intro q
  by_cases hq : place <+: q
  · exact Or.inr (Or.inl (hi q hq))
  · exact Or.inl (by rw [entryAt?_dropTree, if_neg fun h => hq h.1])

end Frame

/-- What stood stands on, as a file or as a directory; the disk has changed at some places, and
there are new directories at others. -/
structure Grows (inside above : Place → Prop) (d d' : Disk) : Prop where
  tag : d'.tag = d.tag
  kinds : ∀ q e, d.entryAt? q = some e → ∃ e', d'.entryAt? q = some e' ∧ e'.isFile = e.isFile
  entries : Frame inside above d d'

namespace Grows

variable {d d' d'' : Disk} {inside above : Place → Prop}

theorem of_same (ht : d'.tag = d.tag) (h : ∀ q, d'.entryAt? q = d.entryAt? q) :
    Grows inside above d d' :=
  ⟨ht, fun q e he => ⟨e, (h q).trans he, rfl⟩, fun q => Or.inl (h q)⟩

theorem refl (d : Disk) : Grows inside above d d := of_same rfl fun _ => rfl

theorem trans (h : Grows inside above d d') (h' : Grows inside above d' d'') :
    Grows inside above d d'' where
  tag := h'.tag.trans h.tag
  kinds q e he := by
    obtain ⟨e', he', hk⟩ := h.kinds q e he
    obtain ⟨e'', he'', hk'⟩ := h'.kinds q e' he'
    exact ⟨e'', he'', hk'.trans hk⟩
  entries := h.entries.trans h'.entries

instance : IsPreorder Disk (Grows inside above) where
  refl := refl
  trans _ _ _ := trans

theorem mono (h : Grows inside above d d') {inside' above' : Place → Prop}
    (hi : ∀ q, inside q → inside' q) (ha : ∀ q, above q → inside' q ∨ above' q) :
    Grows inside' above' d d' :=
  ⟨h.tag, h.kinds, h.entries.mono hi ha⟩

theorem dir (h : Grows inside above d d') {q : Place} (hq : d.entryAt? q = some .dir) :
    d'.entryAt? q = some .dir := by
  obtain ⟨e, he, hk⟩ := h.kinds q .dir hq
  cases e with
  | dir => exact he
  | file bytes => cases hk

theorem file (h : Grows inside above d d') {q : Place} {bytes : Bytes}
    (hq : d.entryAt? q = some (.file bytes)) : ∃ bytes', d'.entryAt? q = some (.file bytes') := by
  obtain ⟨e, he, hk⟩ := h.kinds q _ hq
  cases e with
  | dir => cases hk
  | file bytes' => exact ⟨bytes', he⟩

theorem of_opens {places : Place → Prop} (h : Opens d d' places)
    (hp : ∀ q, places q → inside q ∨ above q) : Grows inside above d d' where
  tag := h.tag
  kinds q e he := ⟨e, h.keeps he, rfl⟩
  entries q := by
    rcases h.entries q with he | ⟨hn, hd, hq⟩
    · exact Or.inl he
    · exact Or.inr ((hp q hq).imp_right fun ha => ⟨ha, hn, hd⟩)

theorem of_writes {place : Place} {bytes : Bytes} (h : Writes d d' place bytes)
    (hp : inside place) : Grows inside above d d' where
  tag := h.tag
  kinds q e he := by
    rw [h.entries]
    split
    · next hq =>
      rw [hq] at he
      cases e with
      | dir => exact absurd he h.notDir
      | file bytes' => exact ⟨_, rfl, rfl⟩
    · exact ⟨e, he, rfl⟩
  entries q := by
    rw [h.entries]
    split
    · next hq => exact Or.inr (Or.inl (hq ▸ hp))
    · exact Or.inl rfl

end Grows

/-! ## Files, written or not -/

/-- What changes as a whole writes the target, or nothing. -/
theorem Whole.cases {d : Disk} {p : Path} {contents : Bytes → Prop} {o : Outcome}
    (h : Whole d p contents o) (hp : p.IsResolved) :
    (∃ bytes, Writes d o.1 p.parts bytes) ∨ o.1.tag = d.tag ∧
    ∀ q, o.1.entryAt? q = d.entryAt? q := by
  cases h with
  | done _ _ writes => exact Or.inl ⟨_, placeOf_resolved (d := d) hp ▸ writes⟩
  | refused f => exact Or.inr ⟨rfl, fun _ => rfl⟩

/-- A disk on which a file has been written, or nothing, has grown. -/
theorem Grows.of_cases {d d' : Disk} {place : Place} {inside above : Place → Prop}
    (h : (∃ bytes, Writes d d' place bytes) ∨ d'.tag = d.tag ∧ ∀ q, d'.entryAt? q = d.entryAt? q)
    (hin : inside place) : Grows inside above d d' := by
  rcases h with ⟨bytes, hw⟩ | ⟨htag, hsame⟩
  · exact .of_writes hw hin
  · exact .of_same htag hsame

section Files

variable {d d' : Disk} {p source : Path} {bytes : Bytes}

/-- A file that has been written could be written. -/
theorem writeFile_eq (hp : p.IsResolved) (htag : Code.char '/' ∉ d.tag)
    (h : d.writeFile p bytes = (d', none)) : Writes d d' p.parts bytes ∧ d.Writable p := by
  obtain ⟨n, ht, -⟩ := d.temporary_eq hp htag
  refine ⟨placeOf_resolved (d := d) hp ▸ writeFile_ok h,
    writable_of_atomically hp htag (fun created e he hc => ⟨bytes, ?_⟩) h⟩
  rw [overwrite_ok he, placeOf_resolved ht]
  exact hc.put_again bytes

/-- A file that has been copied could be written. -/
theorem copyFile_eq (hp : p.IsResolved) (htag : Code.char '/' ∉ d.tag)
    (h : d.copyFile source p = (d', none)) :
    (∃ bytes, Writes d d' p.parts bytes) ∧ d.Writable p := by
  obtain ⟨n, ht, -⟩ := d.temporary_eq hp htag
  constructor
  · obtain ⟨temp, e, hnone, hfill, hmove⟩ := atomically_ok h
    obtain ⟨bytes, -, he⟩ := overwriteFrom_ok hfill
    exact ⟨bytes, placeOf_resolved (d := d) hp ▸ move_ok hnone he hmove⟩
  · refine writable_of_atomically hp htag (fun created e he hc => ?_) h
    obtain ⟨bytes, -, he⟩ := overwriteFrom_ok he
    rw [he, placeOf_resolved ht]
    exact ⟨bytes, hc.put_again bytes⟩

theorem writeFile_cases (hp : p.IsResolved) (bytes : Bytes) :
    (∃ bytes', Writes d (d.writeFile p bytes).1 p.parts bytes') ∨
      (d.writeFile p bytes).1.tag = d.tag ∧
        ∀ q, (d.writeFile p bytes).1.entryAt? q = d.entryAt? q :=
  (whole_writeFileUpTo none d p bytes).cases hp

theorem copyFile_cases (hp : p.IsResolved) (source : Path) :
    (∃ bytes, Writes d (d.copyFile source p).1 p.parts bytes) ∨
      (d.copyFile source p).1.tag = d.tag ∧
        ∀ q, (d.copyFile source p).1.entryAt? q = d.entryAt? q :=
  (whole_copyFileUpTo none d source p).cases hp

variable {inside above : Place → Prop}

theorem grows_writeFile (hp : p.IsResolved) (bytes : Bytes) (hin : inside p.parts) :
    Grows inside above d (d.writeFile p bytes).1 :=
  .of_cases (writeFile_cases hp bytes) hin

theorem grows_copyFile (hp : p.IsResolved) (source : Path) (hin : inside p.parts) :
    Grows inside above d (d.copyFile source p).1 :=
  .of_cases (copyFile_cases hp source) hin

theorem grows_makeDirectories (hp : p.IsResolved) (h : ∀ q, q <+: p.parts → inside q ∨ above q) :
    Grows inside above d (d.makeDirectories p).1 :=
  .of_opens (opens_makeDirectories d p) fun q hq => h q ((way_resolved hp).mp hq)

end Files

end Disk

end UberPackage
