/-
  Assembling again.

  After a build the directories above the merged tree are there and the shims are written
  (`Settings.Ahead`): with the merged tree cleared, the disk is ahead of what it was when the build
  assembled its libraries.  What a build has written on the one disk, it writes on the other
  (`Build.follows_assemble`, `Build.follows_index`).
-/
import UberPackage.Proofs.Assembly.Follow
import UberPackage.Proofs.Build.Output

namespace UberPackage

/-- The last unit of the name of a source. -/
theorem Text.getLast?_source (t : Text) :
    List.getLast? (t ++ (".ts" : Text)) = some (.char 's') := by
  rw [List.getLast?_append]
  rfl

/-- The name of a temporary file does not end as that of a source does. -/
theorem Disk.temporaryName_ne (name tag t : Text) (n : Nat) :
    temporaryName name tag n ≠ t ++ ".ts" := by
  intro h
  have hlast : (temporaryName name tag n).getLast? = some (.char 'p') := by
    rw [temporaryName, List.getLast?_append]
    rfl
  rw [h, Text.getLast?_source] at hlast
  cases hlast

namespace Settings

variable {s : Settings} {libraries : List Library} {v : Disk} {l : Library} {q : Place}

/-- The directories above the merged tree that a disk lacks. -/
def Missing (s : Settings) (v : Disk) (q : Place) : Prop :=
  q <+: s.outputDir.parts ∧ q ≠ s.outputDir.parts ∧ v.entryAt? q = none

/-- The place of a shim. -/
def IsShim (s : Settings) (libraries : List Library) (q : Place) : Prop :=
  ∃ l ∈ libraries, l.shortName ≠ s.rootLibrary ∧ q = (s.shim l).parts

/-- A disk on which the directories above the merged tree have been made and the shims written. -/
abbrev Ahead (s : Settings) (libraries : List Library) (v : Disk) : Disk → Disk → Prop :=
  Disk.Ahead (s.Missing v) (s.IsShim libraries)

theorem Missing.length_lt (h : s.Missing v q) : q.length < s.outputDir.parts.length := by
  refine Nat.lt_of_le_of_ne h.1.length_le fun he => h.2.1 (h.1.eq_of_length he)

theorem length_shim (hout : s.outputDir.parts ≠ []) (hl : l.shortName.IsPlain) :
    (s.shim l).parts.length = s.outputDir.parts.length := by
  have hpos := List.length_pos_iff.mpr hout
  rw [parts_shim hl, List.length_append, List.length_dropLast, List.length_singleton]
  omega

namespace Separated

variable (hsep : s.Separated libraries)

include hsep

/-- Nothing in the merged tree is ahead. -/
theorem not_ahead (h : s.outputDir.parts <+: q) : ¬ s.Missing v q ∧ ¬ s.IsShim libraries q := by
  refine ⟨fun hm => hm.2.1 ?_, ?_⟩
  · exact hm.1.eq_of_length (Nat.le_antisymm hm.1.length_le h.length_le)
  · rintro ⟨k, hk, hroot, rfl⟩
    exact (hsep.shim k hk hroot).1.1 h

/-- Where a library is copied from and to, nothing is ahead that matters. -/
theorem free (hnamed : Build.Named libraries) (hl : l ∈ libraries)
    (hdir : v.entryAt? l.root.parts = some .dir) (hv : v.IsFileTree) :
    Assembly.Free (s.Missing v) (s.IsShim libraries) l.root (s.directory l) where
  reading q hq := by
    refine ⟨fun ⟨habove, _, hnone⟩ => ?_, ?_⟩
    · rcases hq with hq | hq
      · have hq' : v.entryAt? q = some .dir := by
          by_cases hne : q = l.root.parts
          · rw [hne, hdir]
          · exact hv.dir_of_prefix hq hne (by rw [hdir]; rfl)
        rw [hq'] at hnone
        cases hnone
      · exact (hsep.output l hl).2 (hq.trans habove)
    · rintro ⟨k, hk, hroot, rfl⟩
      obtain ⟨-, -, -, hlibrary⟩ := hsep.shim k hk hroot
      exact hq.elim (hlibrary l hl).2 (hlibrary l hl).1
  writing q hq hm := not_prefix_output (hnamed.components l hl) hq hm.1
  way q hq := by
    have hin : s.outputDir.parts <+: (s.directory l).parts := by
      rw [parts_directory (hnamed.plain l hl)]
      exact List.prefix_append _ _
    rintro ⟨k, hk, hroot, rfl⟩
    have hshim := (hsep.shim k hk hroot).1
    rcases hq with hq | hq
    · rcases prefix_directory (hnamed.plain l hl) hq with he | hq
      · exact hshim.1 (he ▸ hin)
      · exact hshim.2 hq
    · exact hshim.1 (hin.trans hq)
  apart := by
    rw [parts_directory (hnamed.plain l hl)]
    exact ((hsep.output l hl).symm.below _).symm

/-- The temporary files in the merged tree are the same on both disks. -/
theorem candidate_inside {d e : Disk} (h : s.Ahead libraries v d e) {p : Path}
    (hp : s.outputDir.parts <+: p.parts.dropLast) (n : Nat) :
    e.entryAt? (d.candidate p n) = d.entryAt? (d.candidate p n) := by
  obtain ⟨hm, hs⟩ :=
    hsep.not_ahead (v := v) (q := d.candidate p n) (hp.trans (List.prefix_append _ _))
  exact h.same hm hs

/-- The temporary files of a shim are the same on both disks. -/
theorem candidate_shim (hnamed : Build.Named libraries) {d e : Disk} (h : s.Ahead libraries v d e)
    (hl : l ∈ libraries) (n : Nat) :
    e.entryAt? (d.candidate (s.shim l) n) = d.entryAt? (d.candidate (s.shim l) n) := by
  refine h.same (fun hm => ?_) ?_
  · have hlt := hm.length_lt
    have hlength := length_shim hsep.output_ne_nil (hnamed.plain l hl)
    rw [parts_shim (hnamed.plain l hl), List.length_append, List.length_singleton] at hlength
    rw [Disk.candidate, parts_shim (hnamed.plain l hl), List.dropLast_concat, List.length_append,
      List.length_singleton] at hlt
    omega
  · rintro ⟨k, hk, -, he⟩
    rw [Disk.candidate, parts_shim (hnamed.plain l hl), parts_shim (hnamed.plain k hk),
      List.dropLast_concat] at he
    exact Disk.temporaryName_ne _ _ _ _ (List.cons.inj (List.append_cancel_left he)).1

end Separated

end Settings

namespace Act

/-- A text that has been written is written again on a disk that is ahead. -/
theorem follows_writeText {dirs files : Place → Prop} {p : Path} (hp : p.IsResolved)
    (hd : ¬ dirs p.parts) (hsame : ∀ d e, Disk.Ahead dirs files d e →
      ∀ n, e.entryAt? (d.candidate p n) = d.entryAt? (d.candidate p n))
    (t : Text) : Follows (Disk.Ahead dirs files) (writeText p t) :=
  (follows_encode t).bind fun _ _ _ _ _ _ => follows_change fun _ _ _ h hw =>
    h.writeFile hp hd (hsame _ _ h) hw

end Act

namespace Build

open Act Disk

variable {s : Settings} {libraries : List Library} {v : Disk}

/-- A text in the merged tree is written again. -/
theorem follows_inside (hsep : s.Separated libraries) {p : Path} (hp : p.IsResolved)
    (hin : s.outputDir.parts <+: p.parts.dropLast) (t : Text) :
    Follows (s.Ahead libraries v) (writeText p t) :=
  follows_writeText hp (hsep.not_ahead (hin.trans (List.dropLast_prefix _))).1
    (fun _ _ h => hsep.candidate_inside h hin) t

/-- A library that has been assembled is assembled again. -/
theorem follows_assemble (hs : s.IsResolved) (hsep : s.Separated libraries)
    (hnamed : Named libraries) {uber : Option Json} {l : Library} (hl : l ∈ libraries)
    (hroot : l.root.IsResolved) (hdir : v.entryAt? l.root.parts = some .dir) (hv : v.IsFileTree) :
    Follows (s.Ahead libraries v) (assemble s (rules s libraries) uber l) := by
  have hplain := hnamed.plain l hl
  have hdirectory := Settings.isResolved_directory hs hplain
  have hinside : ∀ {n : Text}, n.IsComponent →
      ∀ t, Follows (s.Ahead libraries v) (writeText (s.directory l / n) t) := by
    intro n hn t
    refine follows_inside hsep (hdirectory.child hn) ?_ t
    rw [Path.parts_child hn, List.dropLast_concat, Settings.parts_directory hplain]
    exact List.prefix_append _ _
  have hshim :
      Follows (s.Ahead libraries v) (writeText (s.shim l) (Glue.shim {} s.outputDir l)) := by
    refine follows_writeText (Settings.isResolved_shim hs hplain) (fun hm => ?_)
      (fun _ _ h => hsep.candidate_shim hnamed h hl) _
    exact absurd hm.length_lt
      (by rw [Settings.length_shim hsep.output_ne_nil hplain]; exact Nat.lt_irrefl _)
  unfold assemble
  refine (follows_records _).bind fun _ _ _ _ _ _ => ?_
  refine (Assembly.follows_copyTree _ hroot hdirectory (hsep.free hnamed hl hdir hv)).bind
    fun _ _ _ _ _ _ => ?_
  refine ((hinside (by decide) _).bind fun _ _ _ _ _ _ => follows_pure _).bind fun _ _ _ _ _ _ => ?_
  split
  · refine Follows.bind ?_ fun _ targets _ _ _ _ => ?_
    · refine (follows_orFail _ _).bind fun _ _ _ _ _ _ => ?_
      exact (follows_orFail _ _).bind fun _ _ _ _ _ _ => follows_pure _
    refine ((hinside (by decide) _).bind fun _ _ _ _ _ _ => follows_pure _).bind
      fun _ _ _ _ _ _ => ?_
    exact (hshim.bind fun _ _ _ _ _ _ => follows_pure _).bind fun _ _ _ _ _ _ => follows_pure _
  · exact follows_pure _

/-- The index is written again. -/
theorem follows_index (hs : s.IsResolved) (hsep : s.Separated libraries) :
    Follows (s.Ahead libraries v) (Emission.index s.outputDir libraries s.rootLibrary) := by
  refine (follows_inside hsep (hs.outputDir.child (by decide)) ?_ _).bind fun _ _ _ _ _ _ =>
    follows_pure _
  rw [Path.parts_child (by decide), List.dropLast_concat]

end Build

end UberPackage
