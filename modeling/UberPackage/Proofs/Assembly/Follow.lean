/-
  Copying a directory again.

  A disk that is ahead of another has the same along the source and below the target
  (`Assembly.Free`).  So each step that a task has taken on the disk behind it takes on the disk
  ahead, with the same tasks left (`follows_step`), and a directory that has been copied on the one
  is copied on the other (`follows_copyTree`).
-/
import UberPackage.Proofs.Act.Follow
import UberPackage.Proofs.Assembly.Frame
import UberPackage.Proofs.Disk.Ahead

namespace UberPackage

namespace Assembly

/-- Along the source and below the target nothing is ahead; above the target there may be
directories. -/
structure Free (dirs files : Place → Prop) (source target : Path) : Prop where
  reading : ∀ q, q <+: source.parts ∨ source.parts <+: q → ¬ dirs q ∧ ¬ files q
  writing : ∀ q, target.parts <+: q → ¬ dirs q
  way : ∀ q, q <+: target.parts ∨ target.parts <+: q → ¬ files q
  apart : Place.Unrelated target.parts source.parts

section Follow

variable {source target : Path} {dirs files : Place → Prop} {d e : Disk}

namespace Free

theorem same (h : Free dirs files source target) (hd : Disk.Ahead dirs files d e) {q : Place}
    (hq : q <+: source.parts ∨ source.parts <+: q) : e.entryAt? q = d.entryAt? q :=
  hd.same (h.reading q hq).1 (h.reading q hq).2

theorem sameAlong (h : Free dirs files source target) (hd : Disk.Ahead dirs files d e) (x : Place) :
    Disk.SameAlong d e (source.down x) := fun _ hq =>
  h.same hd (List.prefix_or_prefix_of_prefix hq (List.prefix_append source.parts x))

/-- The temporary files below the target. -/
theorem candidate (h : Free dirs files source target) (hd : Disk.Ahead dirs files d e)
    (x : Place) (n : Text) (k : Nat) : target.parts <+: d.candidate (target.down (x ++ [n])) k ∧
      e.entryAt? (d.candidate (target.down (x ++ [n])) k) =
        d.entryAt? (d.candidate (target.down (x ++ [n])) k) := by
  have hbelow : target.parts <+: d.candidate (target.down (x ++ [n])) k := by
    rw [Disk.candidate, Path.down, ← List.append_assoc, List.dropLast_concat, List.append_assoc]
    exact List.prefix_append _ _
  exact ⟨hbelow, hd.same (h.writing _ hbelow) (h.way _ (Or.inr hbelow))⟩

end Free

/-- A step of a task can be taken again on a disk that is ahead. -/
theorem follows_step (r : Rules) (hs : source.IsResolved) (ht : target.IsResolved)
    (hfree : Free dirs files source target) {t : Task} (h : t.Under source target) :
    Act.Follows (Disk.Ahead dirs files) (t.step r) := by
  have hlast : ∀ {x : Place} {n : Text}, (∀ m ∈ x ++ [n], Text.IsFileName m) → n.IsFileName :=
    fun hx => hx _ (List.mem_append_right _ List.mem_cons_self)
  cases h with
  | @make x hx =>
    refine (Act.follows_change fun d d' e hd hm => ?_).bind fun _ _ _ _ _ _ => Act.follows_pure _
    refine hd.makeDirectories (ht.down_fileNames hx) (fun q hq => hfree.way q ?_) hm
    exact List.prefix_or_prefix_of_prefix hq (List.prefix_append target.parts x)
  | @list x hx =>
    refine (Act.follows_ask fun d e names hd hl => ?_).bind fun _ _ _ _ _ _ => Act.follows_pure _
    rw [(hfree.sameAlong hd x).list (hs.down_fileNames hx) hd.tree.distinct hd.tree'.distinct
      fun n => ?_, hl]
    refine hfree.same hd (Or.inr ?_)
    rw [Path.down, List.append_assoc]
    exact List.prefix_append _ _
  | @compare x n c hx hc =>
    refine (Act.follows_ask fun d e b hd hb => ?_).bind fun _ _ b _ _ _ => ?_
    · have hxc : ∀ m ∈ x ++ [c], Text.IsFileName m := fun m hm =>
        (List.mem_append.mp hm).elim (fun hm => hx m (List.mem_append_left _ hm)) fun hm =>
          List.mem_singleton.mp hm ▸ hc
      rw [Path.append_fileName hc, Path.down_down] at hb ⊢
      rw [(hfree.sameAlong hd _).exists? (hs.down_fileNames hxc), hb]
    · split
      · exact Act.follows_pure _
      · exact Act.follows_pure _
  | @classify x n hx =>
    refine (Act.follows_ask fun d e b hd hb => ?_).bind fun _ _ b _ _ _ => ?_
    · rw [Path.append_fileName (hlast hx), Path.down_down] at hb ⊢
      rw [(hfree.sameAlong hd _).isDirectory? (hs.down_fileNames hx), hb]
    · split
      · exact Act.follows_pure _
      · split
        · exact Act.follows_pure _
        · exact Act.follows_pure _
  | @redirect x n hx =>
    refine (Act.follows_ask fun d e bytes hd hb => ?_).bind fun _ bytes _ _ _ _ => ?_
    · rw [Path.append_fileName (hlast hx), Path.down_down] at hb ⊢
      rw [(hfree.sameAlong hd _).read (hs.down_fileNames hx), hb]
    refine (Act.follows_decode _).bind fun _ cs _ _ _ _ => ?_
    refine (Act.follows_records _).bind fun _ _ _ _ _ _ => ?_
    refine (Act.follows_orFail _ _).bind fun _ _ _ _ _ _ => ?_
    exact (Act.follows_decode _).bind fun _ _ _ _ _ _ => Act.follows_pure _
  | @write x n hx bytes =>
    refine (Act.follows_change fun d d' e hd hw => ?_).bind fun _ _ _ _ _ _ => Act.follows_pure _
    exact hd.writeFile (ht.down_fileNames hx) (hfree.writing _ (List.prefix_append _ _))
      (fun k => (hfree.candidate hd x n k).2) hw
  | @copy x n hx =>
    refine (Act.follows_change fun d d' e hd hw => ?_).bind fun _ _ _ _ _ _ => Act.follows_pure _
    refine hd.copyFile (hs.down_fileNames hx) (ht.down_fileNames hx)
      (hfree.writing _ (List.prefix_append _ _))
      (fun k => (hfree.candidate hd x n k).2) (fun k he => ?_)
      ((hfree.sameAlong hd _).read (hs.down_fileNames hx)) hw
    replace he : source.parts ++ (x ++ [n]) = d.candidate (target.down (x ++ [n])) k := he
    refine (hfree.apart.below (x ++ [n])).1 ?_
    rw [he]
    exact (hfree.candidate hd x n k).1

theorem follows_rounds (r : Rules) (hs : source.IsResolved) (ht : target.IsResolved)
    (hfree : Free dirs files source target) (n : Nat) {ts : List Task}
    (h : ∀ t ∈ ts, t.Under source target) :
    Act.Follows (Disk.Ahead dirs files) (rounds r n ts) := by
  induction n generalizing ts with
  | zero =>
    cases ts with
    | nil => exact Act.follows_pure _
    | cons t ts => exact Act.follows_throw _
  | succ n ih =>
    cases ts with
    | nil => exact Act.follows_pure _
    | cons t ts =>
      rw [rounds]
      refine (Act.follows_mapM fun t' ht' => follows_step r hs ht hfree (h t' ht')).bind
        fun w ps w' e hd hps => ?_
      -- what is left to do belongs to the same copy
      have hwithin := Act.within_mapM (P :=
          fun p : Progress => ∀ t' ∈ p.tasks, t'.Under source target) fun t' ht' =>
        @within_step source target (fun _ => True) (fun _ => True) r ht (fun _ _ => trivial)
          (fun _ _ => Or.inl trivial) t' (h t' ht')
      obtain ⟨-, -, htasks⟩ := hwithin.does hd.tree hps
      refine (ih fun t' ht' => ?_).bind fun _ _ _ _ _ _ => Act.follows_pure _
      obtain ⟨p, hp, ht'⟩ := List.mem_flatMap.mp ht'
      exact htasks p hp t' ht'

/-- **A directory that has been copied can be copied again on a disk that is ahead.** -/
theorem follows_copyTree (r : Rules) (hs : source.IsResolved) (ht : target.IsResolved)
    (hfree : Free dirs files source target) :
    Act.Follows (Disk.Ahead dirs files) (copyTree r source target) :=
  follows_rounds r hs ht hfree _ fun _ h => List.mem_singleton.mp h ▸ under_make source target

end Follow

end Assembly

end UberPackage
