/-
  A disk that is ahead of another.

  One disk is ahead of another (`Disk.Ahead`) when they have the same at all places, but for some
  directories that only the first one has and some files that it may have already.  What is looked
  up away from these places is the same on both (`Ahead.same`).  Directories that can be made on the
  disk behind can be made on the disk ahead, files can be written, and one stays ahead of the other
  (`Ahead.makeDirectories`, `Ahead.writeFile`, `Ahead.copyFile`).
-/
import UberPackage.Proofs.Disk.Tree

namespace UberPackage.Disk

variable {dirs files : Place → Prop} {d d' e e' : Disk} {p : Path} {q : Place}

/-- The second disk has what the first one has, and at some places it has directories already, at
others files. -/
structure Ahead (dirs files : Place → Prop) (d e : Disk) : Prop where
  tree : d.IsFileTree
  tree' : e.IsFileTree
  tag : e.tag = d.tag
  entries : ∀ q, e.entryAt? q = d.entryAt? q ∨
    (dirs q ∧ d.entryAt? q = none ∧ e.entryAt? q = some .dir) ∨
    (files q ∧ d.entryAt? q ≠ some .dir ∧ ∃ bytes, e.entryAt? q = some (.file bytes))

/-- A file that has been copied could be read, unless the temporary file was made in its place. -/
theorem read_of_copyFile {source : Path} (hs : source.IsResolved) (hp : p.IsResolved)
    (htag : Code.char '/' ∉ d.tag) (hne : ∀ n, source.parts ≠ d.candidate p n)
    (h : d.copyFile source p = (d', none)) :
    ∃ bytes, d.read source = .ok bytes ∧ Writes d d' p.parts bytes := by
  obtain ⟨n, ht, hparts, -⟩ := d.temporary_eq hp htag
  obtain ⟨-, hfree, e, hfill, -⟩ := temporary_of_atomically h
  rw [placeOf_resolved ht] at hfree hfill
  obtain ⟨bytes, hread', -⟩ := overwriteFrom_ok hfill
  have hread := (Adds.put hfree []).read_of_ne hs (hparts ▸ hne n) hread'
  refine ⟨bytes, hread, ?_⟩
  have hentry := (read_eq_ok hread).2
  obtain ⟨bytes', hentry', hwrites⟩ := copyFile_ok (by rw [hentry]; rfl) h
  rw [hentry] at hentry'
  cases hentry'
  rwa [placeOf_resolved hp] at hwrites

namespace Ahead

/-! ## Looking up -/

theorem dir (h : Ahead dirs files d e) (hq : d.entryAt? q = some .dir) :
    e.entryAt? q = some .dir := by
  rcases h.entries q with he | ⟨-, hnone, -⟩ | ⟨-, hnot, -⟩
  · rw [he, hq]
  · rw [hq] at hnone
    cases hnone
  · exact absurd hq hnot

theorem same (h : Ahead dirs files d e) (hd : ¬ dirs q) (hf : ¬ files q) :
    e.entryAt? q = d.entryAt? q := by
  rcases h.entries q with he | ⟨hin, -⟩ | ⟨hin, -⟩
  · exact he
  · exact absurd hin hd
  · exact absurd hin hf

/-- A place whose name is not that of a file ahead has the same, or only the disk ahead has a
directory there. -/
theorem notDir (h : Ahead dirs files d e) (hd : ¬ dirs q) (hq : d.entryAt? q ≠ some .dir) :
    e.entryAt? q ≠ some .dir := by
  rcases h.entries q with he | ⟨hin, -⟩ | ⟨-, -, bytes, hfile⟩
  · rwa [he]
  · exact absurd hin hd
  · rw [hfile]
    exact fun hdir => by cases hdir

theorem reaches (h : Ahead dirs files d e) (hq : d.Reaches q) : e.Reaches q :=
  fun x n hx => ⟨h.dir (hq x n hx).1, (hq x n hx).2⟩

theorem locate (h : Ahead dirs files d e) (hp : p.IsResolved) (hl : d.locate p = .ok q) :
    e.locate p = .ok q := by
  obtain ⟨hname, hreaches, hq⟩ := (locate_resolved hp).mp hl
  exact (locate_resolved hp).mpr ⟨hname, h.reaches hreaches, hq⟩

/-! ## Changes -/

theorem makeDirectories (h : Ahead dirs files d e) (hp : p.IsResolved)
    (hfiles : ∀ q, q <+: p.parts → ¬ files q) (hm : d.makeDirectories p = (d', none)) :
    ∃ e', e.makeDirectories p = (e', none) ∧ Ahead dirs files d' e' := by
  have hname := nameFault?_of_makeDirectories hm
  have hmakes := makeDirectories_ok hm
  have hreaches := (leads_resolved hp).mp hmakes.leads'
  have htree := h.tree.makes hp hname hmakes
  have hmade : ∀ {c c' : Disk}, Makes c c' p → c'.IsFileTree → ∀ q, q <+: p.parts →
      c'.entryAt? q = some .dir := by
    intro c c' hm hc q hq
    have hdir := hm.dir
    rw [placeOf_resolved hp] at hdir
    by_cases hne : q = p.parts
    · rw [hne, hdir]
    · exact hc.dir_of_prefix hq hne (by rw [hdir]; rfl)
  -- no file is on the way: the disk behind has directories there now
  have hpassable : e.Passable p := by
    refine ⟨hp, hname, hreaches.size, fun q hq bytes hfile => ?_⟩
    rcases h.entries q with he | ⟨-, -, hdir⟩ | ⟨hin, -⟩
    · have hkept := hmakes.toOpens.keeps (he ▸ hfile)
      rw [hmade hmakes htree q hq] at hkept
      cases hkept
    · rw [hdir] at hfile
      cases hfile
    · exact hfiles q hq hin
  obtain ⟨e', hm'⟩ := exists_makeDirectories hpassable
  have hmakes' := makeDirectories_ok hm'
  have htree' := h.tree'.makes hp hname hmakes'
  refine ⟨e', hm', htree, htree', ?_, fun q => ?_⟩
  · rw [hmakes.toOpens.tag, hmakes'.toOpens.tag, h.tag]
  · by_cases hq : q <+: p.parts
    · exact Or.inl (by rw [hmade hmakes htree q hq, hmade hmakes' htree' q hq])
    · have hsame : ∀ {c c' : Disk}, Makes c c' p → c'.entryAt? q = c.entryAt? q := by
        intro c c' hm
        rcases hm.toOpens.entries q with he | ⟨-, -, hway⟩
        · exact he
        · exact absurd ((way_resolved hp).mp hway) hq
      rw [hsame hmakes, hsame hmakes']
      exact h.entries q

/-- The same temporary file is free on both disks, and it can be made. -/
theorem writable (h : Ahead dirs files d e) (hp : p.IsResolved) (hd : ¬ dirs p.parts)
    (hsame : ∀ n, e.entryAt? (d.candidate p n) = d.entryAt? (d.candidate p n)) (hw : d.Writable p) :
    e.Writable p := by
  obtain ⟨n, ht, -⟩ := d.temporary_eq hp h.tree.tag
  refine ⟨?_, h.locate hp hw.target, h.notDir hd hw.notDir⟩
  rw [temporary_congr hp h.tree.tag h.tag hsame]
  exact h.locate ht hw.temporary

theorem writes (h : Ahead dirs files d e) (hp : p.IsResolved) (hl : d.locate p = .ok p.parts)
    {bytes : Bytes} (hw : Writes d d' p.parts bytes) (hw' : Writes e e' p.parts bytes) :
    Ahead dirs files d' e' where
  tree := h.tree.writes hp hl hw
  tree' := h.tree'.writes hp (h.locate hp hl) hw'
  tag := by rw [hw.tag, hw'.tag, h.tag]
  entries q := by
    rw [hw.entries, hw'.entries]
    by_cases hq : q = p.parts
    · rw [if_pos hq, if_pos hq]
      exact Or.inl rfl
    · rw [if_neg hq, if_neg hq]
      exact h.entries q

theorem writeFile (h : Ahead dirs files d e) (hp : p.IsResolved) (hd : ¬ dirs p.parts)
    (hsame : ∀ n, e.entryAt? (d.candidate p n) = d.entryAt? (d.candidate p n)) {bytes : Bytes}
    (hw : d.writeFile p bytes = (d', none)) :
    ∃ e', e.writeFile p bytes = (e', none) ∧ Ahead dirs files d' e' := by
  obtain ⟨hwrites, hwritable⟩ := writeFile_eq hp h.tree.tag hw
  obtain ⟨e', he'⟩ := exists_writeFile hp h.tree'.tag (h.writable hp hd hsame hwritable) bytes
  exact ⟨e', he', h.writes hp hwritable.target hwrites (writeFile_eq hp h.tree'.tag he').1⟩

theorem copyFile (h : Ahead dirs files d e) {source : Path} (hs : source.IsResolved)
    (hp : p.IsResolved) (hd : ¬ dirs p.parts)
    (hsame : ∀ n, e.entryAt? (d.candidate p n) = d.entryAt? (d.candidate p n))
    (hne : ∀ n, source.parts ≠ d.candidate p n) (hr : e.read source = d.read source)
    (hw : d.copyFile source p = (d', none)) :
    ∃ e', e.copyFile source p = (e', none) ∧ Ahead dirs files d' e' := by
  have hwritable := (copyFile_eq hp h.tree.tag hw).2
  have hwritable' := h.writable hp hd hsame hwritable
  have hne' : ∀ n, source.parts ≠ e.candidate p n := fun n => by
    rw [candidate, h.tag]
    exact hne n
  obtain ⟨bytes, hread, hwrites⟩ := read_of_copyFile hs hp h.tree.tag hne hw
  obtain ⟨e', he'⟩ := exists_copyFile hs hp h.tree'.tag hwritable' (hr.trans hread)
  obtain ⟨bytes', hread', hwrites'⟩ := read_of_copyFile hs hp h.tree'.tag hne' he'
  obtain rfl : bytes = bytes' := Except.ok.inj (hread.symm.trans (hr.symm.trans hread'))
  exact ⟨e', he', h.writes hp hwritable.target hwrites hwrites'⟩

end Ahead

end UberPackage.Disk
