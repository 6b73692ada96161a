/-
  When changes of a disk succeed.

  A file can be written where a new file can be made beside it and no directory stands
  (`Disk.Writable`).  There is always a free name for the new file, the first one
  (`Disk.temporary_eq`).  A directory can be made where no file stands on the way
  (`Disk.exists_makeDirectories`).
-/
import Mathlib.Data.List.Perm.Subperm
import UberPackage.Proofs.Disk.Agreement

namespace UberPackage.Disk

/-! ## Temporary files -/

theorem isComponent_temporaryName {name tag : Text} (hn : Code.char '/' ∉ name)
    (ht : Code.char '/' ∉ tag) (n : Nat) : (temporaryName name tag n).IsComponent := by
  have hslash : Code.char '/' ∉ temporaryName name tag n := by
    have hline : Code.char '/' ∉ List.replicate n (Code.char '_') := fun h =>
      absurd (List.eq_of_mem_replicate h) (by decide)
    have hdot : Code.char '/' ∉ (↑"." : Text) := by decide
    have htmp : Code.char '/' ∉ (↑".tmp" : Text) := by decide
    simp only [temporaryName, List.mem_append, not_or]
    exact ⟨⟨⟨⟨⟨hdot, hn⟩, hdot⟩, ht⟩, hline⟩, htmp⟩
  have hlength : 6 ≤ (temporaryName name tag n).length := by
    have hdot : List.length (↑"." : Text) = 1 := rfl
    have htmp : List.length (↑".tmp" : Text) = 4 := rfl
    simp only [temporaryName, List.length_append, hdot, htmp]
    omega
  have hne : ∀ t : Text, t.length < 6 → temporaryName name tag n ≠ t := by
    rintro t ht rfl
    exact absurd hlength (Nat.not_le_of_lt ht)
  exact ⟨hne _ (by decide), hne _ (by decide), hne _ (by decide), hslash⟩

theorem temporaryName_injective {name tag : Text} {m n : Nat}
    (h : temporaryName name tag m = temporaryName name tag n) : m = n := by
  have hlength := congrArg List.length h
  simp only [temporaryName, List.length_append, List.length_replicate] at hlength
  omega

/-- The place of the `n`-th file to try beside a target. -/
def candidate (d : Disk) (target : Path) (n : Nat) : Place :=
  target.parts.dropLast ++ [temporaryName target.name d.tag n]

theorem candidate_ne_nil (d : Disk) (target : Path) (n : Nat) : d.candidate target n ≠ [] :=
  List.append_ne_nil_of_right_ne_nil _ (List.cons_ne_nil _ _)

/-- Of one more candidates than entries, one is free. -/
theorem exists_free (d : Disk) (target : Path) :
    ∃ n, n < d.entries.length + 1 ∧ d.entryAt? (d.candidate target n) = none := by
  by_contra h
  have htaken :
      (List.range (d.entries.length + 1)).map (d.candidate target) ⊆ d.entries.map Prod.fst := by
    intro q hq
    obtain ⟨n, hn, rfl⟩ := List.mem_map.mp hq
    rw [mem_keys_iff, ← entryAt?_of_ne (candidate_ne_nil _ _ _), Option.isSome_iff_ne_none]
    exact fun hnone => h ⟨n, List.mem_range.mp hn, hnone⟩
  have hnodup : ((List.range (d.entries.length + 1)).map (d.candidate target)).Nodup := by
    refine List.nodup_range.map fun m n hmn => ?_
    exact temporaryName_injective (List.cons.inj (List.append_cancel_left hmn)).1
  have hlength := (List.Nodup.subperm hnodup htaken).length_le
  rw [List.length_map, List.length_map, List.length_range] at hlength
  exact absurd hlength (Nat.not_succ_le_self _)

theorem no_slash_name {p : Path} (hp : p.IsResolved) : Code.char '/' ∉ p.name := by
  rw [Path.name]
  cases h : p.parts.getLast? with
  | none => exact List.not_mem_nil
  | some n => exact (hp.parts n (List.mem_of_getLast? h)).no_slash

/-- The temporary file is the first candidate that is free. -/
theorem temporary_eq {d : Disk} {target : Path} (hp : target.IsResolved)
    (ht : Code.char '/' ∉ d.tag) :
    ∃ n, (d.temporary target).IsResolved ∧ (d.temporary target).parts = d.candidate target n ∧
      d.entryAt? (d.candidate target n) = none ∧
      ∀ k < n, d.entryAt? (d.candidate target k) ≠ none := by
  have hcandidate : ∀ n, d.resolve target.parent / temporaryName target.name d.tag n =
      target.parent.down [temporaryName target.name d.tag n] := fun n => by
    rw [Disk.resolve, hp.parent.resolve, Path.append_component
      (isComponent_temporaryName (no_slash_name hp) ht n)]
  have hresolved :
      ∀ n, (target.parent.down [temporaryName target.name d.tag n]).IsResolved := fun n =>
    hp.parent.down fun m hm => List.mem_singleton.mp hm ▸
      isComponent_temporaryName (no_slash_name hp) ht n
  obtain ⟨n, hn, hfree⟩ := d.exists_free target
  rw [temporary]
  dsimp only
  simp only [hcandidate]
  cases hfind : (List.range (d.entries.length + 1)).find? fun n =>
      (d.entryAt? (target.parent.down [temporaryName target.name d.tag n]).parts).isNone with
  | none =>
    have hall := List.find?_eq_none.mp hfind n (List.mem_range.mpr hn)
    rw [show d.entryAt? (target.parent.down [temporaryName target.name d.tag n]).parts = none
      from hfree] at hall
    exact absurd rfl hall
  | some k =>
    obtain ⟨hk, -, hless⟩ := List.find?_range_eq_some.mp hfind
    refine ⟨k, hresolved k, rfl, Option.isNone_iff_eq_none.mp hk, fun j hj hnone => ?_⟩
    have hj' := hless j hj
    rw [show d.entryAt? (target.parent.down [temporaryName target.name d.tag j]).parts = none
      from hnone] at hj'
    exact absurd hj' (by simp)

/-- The same candidates free, the same temporary file. -/
theorem temporary_congr {d e : Disk} {target : Path} (hp : target.IsResolved)
    (ht : Code.char '/' ∉ d.tag) (htag : e.tag = d.tag)
    (h : ∀ n, e.entryAt? (d.candidate target n) = d.entryAt? (d.candidate target n)) :
    e.temporary target = d.temporary target := by
  have hcandidate : e.candidate target = d.candidate target := by
    funext n
    rw [candidate, candidate, htag]
  obtain ⟨m, hm, hmparts, hmfree, hmless⟩ := d.temporary_eq hp ht
  obtain ⟨n, hn, hnparts, hnfree, hnless⟩ := e.temporary_eq hp (htag ▸ ht)
  rw [hcandidate] at hnparts hnfree hnless
  rw [h] at hnfree
  have hmn : m = n := by
    rcases Nat.lt_trichotomy m n with hlt | heq | hlt
    · exact absurd hmfree (h m ▸ hnless m hlt)
    · exact heq
    · exact absurd hnfree (hmless n hlt)
  have hparts :
      (e.temporary target).parts = (d.temporary target).parts := by rw [hmparts, hnparts, hmn]
  have hanchor :
      (e.temporary target).anchor = (d.temporary target).anchor := by rw [hm.anchor, hn.anchor]
  cases he : e.temporary target with
  | mk a parts =>
    cases hd : d.temporary target with
    | mk b parts' =>
      rw [he, hd] at hparts hanchor
      dsimp only at hparts hanchor
      rw [hparts, hanchor]

/-! ## Files -/

/-- A file has been put where nothing stood, and nothing else has changed. -/
structure Adds (d e : Disk) (place : Place) (bytes : Bytes) : Prop where
  cwd : e.cwd = d.cwd
  free : d.entryAt? place = none
  entries : ∀ q, e.entryAt? q = if q = place then some (.file bytes) else d.entryAt? q

namespace Adds

variable {d e : Disk} {place : Place} {bytes : Bytes}

theorem put (h : d.entryAt? place = none) (bytes : Bytes) :
    Adds d (d.put place (.file bytes)) place bytes where
  cwd := rfl
  free := h
  entries := entryAt?_put _ (ne_nil_of_free h)

theorem put_again (h : Adds d e place bytes) (bytes' : Bytes) :
    Adds d (e.put place (.file bytes')) place bytes' where
  cwd := h.cwd
  free := h.free
  entries q := by
    rw [entryAt?_put _ (ne_nil_of_free h.free), h.entries]
    split <;> rfl

theorem dir_iff (h : Adds d e place bytes) (q : Place) :
    e.entryAt? q = some .dir ↔ d.entryAt? q = some .dir := by
  rw [h.entries]
  split
  · next hq =>
    rw [hq, h.free]
    simp
  · rfl

theorem reaches (h : Adds d e place bytes) {q : Place} : e.Reaches q ↔ d.Reaches q := by
  rw [Reaches, Reaches]
  exact forall₃_congr fun x n _ => and_congr_left' (h.dir_iff x)

/-- Adding a file changes no way. -/
theorem locate_eq_ok (h : Adds d e place bytes) {p : Path} (hp : p.IsResolved) {q : Place} :
    e.locate p = .ok q ↔ d.locate p = .ok q := by
  rw [locate_resolved hp, locate_resolved hp, h.reaches]

theorem read_place (h : Adds d e place bytes) {p : Path} (hp : d.locate p = .ok place)
    (hr : p.IsResolved) : e.read p = .ok bytes := by
  have hlocate := (h.locate_eq_ok hr).mpr hp
  rw [Disk.read, Disk.stat, hlocate, except_ok_bind, h.entries, if_pos rfl]
  rfl

theorem read_other (h : Adds d e place bytes) {p : Path} (hr : p.IsResolved) {bs : Bytes}
    (hp : d.read p = .ok bs) : e.read p = .ok bs := by
  obtain ⟨hlocate, hentry⟩ := read_eq_ok hp
  rw [placeOf_resolved hr] at hlocate hentry
  have hne : p.parts ≠ place := fun he => by rw [he, h.free] at hentry; cases hentry
  rw [Disk.read, Disk.stat, (h.locate_eq_ok hr).mpr hlocate, except_ok_bind, h.entries,
    if_neg hne, hentry]
  rfl

theorem read_of_ne (h : Adds d e place bytes) {p : Path} (hr : p.IsResolved) (hne : p.parts ≠ place)
    {bs : Bytes} (hp : e.read p = .ok bs) : d.read p = .ok bs := by
  obtain ⟨hlocate, hentry⟩ := read_eq_ok hp
  rw [placeOf_resolved hr] at hlocate hentry
  rw [h.entries, if_neg hne] at hentry
  rw [Disk.read, Disk.stat, (h.locate_eq_ok hr).mp hlocate, except_ok_bind, hentry]
  rfl

end Adds

/-- A file can be written: a new one can be made beside it, and it is no directory. -/
structure Writable (d : Disk) (p : Path) : Prop where
  temporary : d.locate (d.temporary p) = .ok (d.temporary p).parts
  target : d.locate p = .ok p.parts
  notDir : d.entryAt? p.parts ≠ some .dir

/-- A new file can be moved over the target. -/
theorem exists_move {d e : Disk} {p : Path} (hp : p.IsResolved) (ht : (d.temporary p).IsResolved)
    (hw : d.Writable p) {bytes : Bytes} (he : Adds d e (d.temporary p).parts bytes) :
    ∃ d', e.move (d.temporary p) p = .ok d' := by
  have htemp := (he.locate_eq_ok ht).mpr hw.temporary
  have hdir : e.entryAt? p.parts ≠ some .dir := fun h => hw.notDir ((he.dir_iff _).mp h)
  rw [move, he.read_place hw.temporary ht, except_ok_bind, htemp, except_ok_bind,
    (he.locate_eq_ok hp).mpr hw.target]
  dsimp only
  split
  · next h => exact absurd h hdir
  · exact ⟨_, rfl⟩

/-- A new file that can be filled can take the place of the target. -/
theorem exists_atomically {d : Disk} {p : Path} (hp : p.IsResolved) (htag : Code.char '/' ∉ d.tag)
    (hw : d.Writable p) {fill : Disk → Path → Outcome} {bytes : Bytes}
    (hfill : ∀ created, Adds d created (d.temporary p).parts [] →
      ∃ e, fill created (d.temporary p) = (e, none) ∧ Adds d e (d.temporary p).parts bytes) :
    ∃ d', d.atomically p fill = (d', none) := by
  obtain ⟨n, ht, hparts, hfree, -⟩ := d.temporary_eq hp htag
  rw [← hparts] at hfree
  have hcreate : d.create (d.temporary p) = .ok (d.put (d.temporary p).parts (.file [])) := by
    rw [create, hw.temporary, except_ok_bind, hfree]
    rfl
  obtain ⟨e, hfilled, he⟩ := hfill _ (.put hfree [])
  obtain ⟨d', hmove⟩ := exists_move hp ht hw he
  refine ⟨d', ?_⟩
  rw [atomically]
  dsimp only
  rw [hcreate]
  dsimp only
  rw [hfilled]
  dsimp only [Outcome.andThen]
  rw [hmove]
  rfl

theorem exists_overwrite {d e : Disk} {p : Path} {place : Place} (hp : p.IsResolved)
    (hl : d.locate p = .ok place) {bytes : Bytes} (he : Adds d e place bytes) (bytes' : Bytes) :
    ∃ e', overwrite bytes' e p = (e', none) ∧ Adds d e' place bytes' := by
  refine ⟨_, ?_, he.put_again bytes'⟩
  rw [overwrite, (he.locate_eq_ok hp).mpr hl]
  rfl

theorem exists_writeFile {d : Disk} {p : Path} (hp : p.IsResolved) (htag : Code.char '/' ∉ d.tag)
    (hw : d.Writable p) (bytes : Bytes) : ∃ d', d.writeFile p bytes = (d', none) := by
  obtain ⟨n, ht, -⟩ := d.temporary_eq hp htag
  exact exists_atomically hp htag hw fun created hc => exists_overwrite ht hw.temporary hc bytes

theorem exists_copyFile {d : Disk} {source p : Path} (hs : source.IsResolved) (hp : p.IsResolved)
    (htag : Code.char '/' ∉ d.tag) (hw : d.Writable p) {bytes : Bytes}
    (hr : d.read source = .ok bytes) : ∃ d', d.copyFile source p = (d', none) := by
  obtain ⟨n, ht, -⟩ := d.temporary_eq hp htag
  have hfill : ∀ created, Adds d created (d.temporary p).parts [] →
      ∃ e, overwriteFrom source created (d.temporary p) = (e, none) ∧
        Adds d e (d.temporary p).parts bytes := fun created hc => by
    rw [overwriteFrom, hc.read_other hs hr]
    exact exists_overwrite ht hw.temporary hc bytes
  exact exists_atomically hp htag hw hfill

/-- Where a file has been filled and moved, it could be written. -/
theorem writable_of_atomically {d d' : Disk} {p : Path} (hp : p.IsResolved)
    (htag : Code.char '/' ∉ d.tag) {fill : Disk → Path → Outcome}
    (hfill : ∀ created e, fill created (d.temporary p) = (e, none) →
      Adds d created (d.temporary p).parts [] → ∃ bytes, Adds d e (d.temporary p).parts bytes)
    (h : d.atomically p fill = (d', none)) : d.Writable p := by
  obtain ⟨n, ht, -⟩ := d.temporary_eq hp htag
  obtain ⟨hq, hfree, e, he, hmove⟩ := temporary_of_atomically h
  rw [placeOf_resolved ht] at hq hfree he
  obtain ⟨bytes, hadds⟩ := hfill _ e he (.put hfree [])
  rw [move, hadds.read_place hq ht, except_ok_bind, (hadds.locate_eq_ok ht).mpr hq,
    except_ok_bind] at hmove
  dsimp only at hmove
  split at hmove
  · cases hmove
  · cases hmove
  · next place hplace =>
    have hlocate := (hadds.locate_eq_ok hp).mp hplace
    obtain rfl := (locate_resolved hp).mp hlocate |>.2.2
    split at hmove
    · cases hmove
    · next hdir => exact ⟨hq, hlocate, fun hd => hdir ((hadds.dir_iff _).mpr hd)⟩

/-! ## Directories -/

/-- No file is on the way along a path that a file system takes. -/
structure Passable (d : Disk) (p : Path) : Prop where
  resolved : p.IsResolved
  name : p.nameFault? = none
  size : ∀ n ∈ p.parts, n.size ≤ nameLimit
  noFile : ∀ q, q <+: p.parts → ∀ bytes, d.entryAt? q ≠ some (.file bytes)

namespace Passable

variable {d d' : Disk} {p : Path}

theorem parent (h : d.Passable p) : d.Passable p.parent where
  resolved := h.resolved.parent
  name :=
    Path.nameFault?_of_prefix h.resolved.anchor h.resolved.anchor (List.dropLast_prefix _) h.name
  size n hn := h.size n (List.dropLast_subset _ hn)
  noFile q hq := h.noFile q (hq.trans (List.dropLast_prefix _))

theorem opens (h : d.Passable p) {places : Place → Prop} (ho : Opens d d' places) :
    d'.Passable p where
  resolved := h.resolved
  name := h.name
  size := h.size
  noFile q hq bytes he := by
    rcases ho.entries q with hsame | ⟨-, hdir, -⟩
    · exact h.noFile q hq bytes (hsame ▸ he)
    · rw [hdir] at he
      cases he

/-- Only a directory can be missing on the way. -/
theorem locate (h : d.Passable p) :
    d.locate p = .ok p.parts ∨ d.locate p = .error (.refused .noEntry p.text) ∧ p.parts ≠ [] := by
  have hfold : ∀ (parts here : Place), here ++ parts = p.parts →
      parts.foldlM d.step here = .ok (here ++ parts) ∨
        parts.foldlM d.step here = .error .noEntry ∧ parts ≠ [] := by
    intro parts
    induction parts with
    | nil => exact fun here _ => Or.inl (congrArg Except.ok (List.append_nil here).symm)
    | cons n parts ih =>
      intro here hparts
      have hn : n ∈ p.parts := hparts ▸ List.mem_append_right _ List.mem_cons_self
      rw [List.foldlM_cons]
      cases he : d.entryAt? here with
      | none =>
        refine Or.inr ⟨?_, List.cons_ne_nil _ _⟩
        rw [step, he]
        rfl
      | some e =>
        cases e with
        | file bytes => exact absurd he (h.noFile here ⟨_, hparts⟩ bytes)
        | dir =>
          rw [(step_eq_ok (h.resolved.ne_dots n hn)).mpr ⟨he, h.size n hn⟩, except_ok_bind]
          have hnext : here ++ [n] ++ parts = here ++ n :: parts := by rw [List.append_assoc]; rfl
          rw [← hnext]
          exact (ih _ (hnext.trans hparts)).imp_right fun hrest => ⟨hrest.1, List.cons_ne_nil _ _⟩
  rw [Disk.locate, h.name, if_pos h.resolved.isAbsolute]
  dsimp only
  rcases hfold p.parts [] rfl with hok | ⟨herror, hne⟩
  · rw [hok]
    exact Or.inl rfl
  · rw [herror]
    exact Or.inr ⟨rfl, hne⟩

/-- A directory can be made where those above it are there, or it is there. -/
theorem makeDirectory (h : d.Passable p) (hl : d.locate p = .ok p.parts) :
    (∃ d', d.makeDirectory p = .ok d') ∨
      d.makeDirectory p = .error (.refused .alreadyThere p.text) ∧ d.isDirectory? p = .ok true := by
  rw [Disk.makeDirectory, hl, except_ok_bind, isDirectory?, probe, stat, hl, except_ok_bind]
  cases he : d.entryAt? p.parts with
  | none => exact Or.inl ⟨_, rfl⟩
  | some e =>
    cases e with
    | file bytes => exact absurd he (h.noFile _ (List.prefix_refl _) bytes)
    | dir => exact Or.inr ⟨rfl, rfl⟩

end Passable

theorem tolerated_directory {d : Disk} {p : Path} (h : d.isDirectory? p = .ok true) :
    d.tolerated p (.refused .alreadyThere p.text) = (d, none) := by
  rw [tolerated, h]

theorem exists_makeDirectoriesAbove {n : Nat} {d : Disk} {p : Path} (h : d.Passable p)
    (hn : p.parts.length ≤ n) : ∃ d', makeDirectoriesAbove n d p = (d', none) := by
  induction n generalizing d p with
  | zero =>
    have hl : d.locate p = .ok p.parts := h.locate.resolve_right fun hne =>
      hne.2 (List.length_eq_zero_iff.mp (Nat.le_zero.mp hn))
    rw [makeDirectoriesAbove]
    rcases h.makeDirectory hl with ⟨d', hd'⟩ | ⟨herror, hdir⟩
    · rw [hd']
      exact ⟨d', rfl⟩
    · rw [herror]
      exact ⟨d, tolerated_directory hdir⟩
  | succ n ih =>
    rw [makeDirectoriesAbove]
    rcases h.locate with hl | ⟨hl, hne⟩
    · rcases h.makeDirectory hl with ⟨d', hd'⟩ | ⟨herror, hdir⟩
      · rw [hd']
        exact ⟨d', rfl⟩
      · rw [herror]
        exact ⟨d, tolerated_directory hdir⟩
    · have hmissing : d.makeDirectory p = .error (.refused .noEntry p.text) := by
        rw [makeDirectory, hl]
        rfl
      obtain ⟨d₁, hparent⟩ := ih h.parent (by
        show p.parts.dropLast.length ≤ n
        rw [List.length_dropLast]
        omega)
      -- those above are there now
      have hmakes := makeDirectoriesAbove_ok hparent
      have h₁ := h.opens hmakes.toOpens
      have hreaches : d₁.Reaches p.parts := by
        have hparts : p.parts.dropLast ++ [p.parts.getLast hne] = p.parts :=
          List.dropLast_append_getLast hne
        rw [← hparts, reaches_concat]
        have hdir := hmakes.dir
        rw [placeOf_resolved h.resolved.parent] at hdir
        exact ⟨(leads_resolved h.resolved.parent).mp hmakes.leads', hdir,
          h.size _ (List.getLast_mem hne)⟩
      rw [hmissing]
      dsimp only
      rw [if_neg hne, hparent]
      dsimp only [Outcome.andThen]
      rcases h₁.makeDirectory ((locate_resolved h.resolved).mpr ⟨h.name, hreaches, rfl⟩) with
        ⟨d', hd'⟩ | ⟨herror, hdir⟩
      · rw [hd']
        exact ⟨d', rfl⟩
      · rw [herror]
        exact ⟨d₁, tolerated_directory hdir⟩

/-- **A directory can be made where no file is on the way.** -/
theorem exists_makeDirectories {d : Disk} {p : Path} (h : d.Passable p) :
    ∃ d', d.makeDirectories p = (d', none) :=
  exists_makeDirectoriesAbove h (Nat.le_refl _)

end UberPackage.Disk
