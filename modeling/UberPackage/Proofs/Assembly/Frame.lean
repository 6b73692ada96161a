/-
  What copying a directory changes.

  The tasks of a copy work below its source and below its target (`Task.Under`), on any file tree.
  So copying changes the target and makes directories above it, whatever comes of it
  (`within_copyTree`).
-/
import UberPackage.Assembly
import UberPackage.Proofs.Act.Within
import UberPackage.Proofs.Suffix

namespace UberPackage

namespace Assembly

/-- The task works at a place below the source and at the same place below the target. -/
inductive Task.Under (source target : Path) : Task → Prop where
  | make {x : Place} (hx : ∀ m ∈ x, Text.IsFileName m) :
      Under source target (.make (source.down x) (target.down x))
  | list {x : Place} (hx : ∀ m ∈ x, Text.IsFileName m) :
      Under source target (.list (source.down x) (target.down x))
  | compare {x : Place} {n c : Text} (hx : ∀ m ∈ x ++ [n], Text.IsFileName m) (hc : c.IsFileName) :
      Under source target (.compare (source.down x) (target.down x) n c)
  | classify {x : Place} {n : Text} (hx : ∀ m ∈ x ++ [n], Text.IsFileName m) :
      Under source target (.classify (source.down x) (target.down x) n)
  | redirect {x : Place} {n : Text} (hx : ∀ m ∈ x ++ [n], Text.IsFileName m) :
      Under source target (.redirect (source.down x) (target.down x) n)
  | write {x : Place} {n : Text} (hx : ∀ m ∈ x ++ [n], Text.IsFileName m) (bytes : Bytes) :
      Under source target (.write (target.down (x ++ [n])) bytes)
  | copy {x : Place} {n : Text} (hx : ∀ m ∈ x ++ [n], Text.IsFileName m) :
      Under source target (.copy (source.down (x ++ [n])) (target.down (x ++ [n])))

/-- The first task of a copy. -/
theorem under_make (source target : Path) : Task.Under source target (.make source target) := by
  have h : Task.Under source target (.make (source.down []) (target.down [])) :=
    .make fun m hm => absurd hm List.not_mem_nil
  rwa [Path.down_nil, Path.down_nil] at h

/-- The first tasks of a file name in a directory. -/
theorem under_ofName {r : Rules} {source target : Path} {x : Place} {n : Text}
    (hx : ∀ m ∈ x ++ [n], Text.IsFileName m) :
    ∀ t ∈ (ofName r (source.down x) (target.down x) n).tasks, t.Under source target := by
  have hn : n.IsFileName := hx n (List.mem_append_right _ List.mem_cons_self)
  intro t ht
  unfold ofName at ht
  split at ht
  · exact absurd ht List.not_mem_nil
  · split at ht
    · next c hc =>
      rw [List.mem_singleton.mp ht]
      exact .compare hx (Suffix.isFileName_sourceCounterpart? hn hc)
    · rw [List.mem_singleton.mp ht]
      exact .classify hx

/-- What the step of a task does to a disk, should it come to that. -/
def Task.change : Task → Disk → Disk.Outcome
  | .make _ target, d => d.makeDirectories target
  | .write target bytes, d => d.writeFile target bytes
  | .copy source target, d => d.copyFile source target
  | .list _ _, d | .compare _ _ _ _, d | .classify _ _ _, d | .redirect _ _ _, d => (d, none)

section Frame

variable {source target : Path} {inside above : Place → Prop}

/-- A step keeps within a relation when the change of its task does, and leaves tasks of the same
copy. -/
theorem within_change_step {R : Disk → Disk → Prop} [IsPreorder Disk R] (r : Rules)
    (ht : target.IsResolved) {t : Task} (h : t.Under source target)
    (hR : ∀ d : Disk, d.IsFileTree → R d (t.change d).1) :
    Act.Within R (t.step r) fun p => ∀ t' ∈ p.tasks, t'.Under source target := by
  have hone : ∀ {t : Task}, t.Under source target → ∀ t' ∈ [t], t'.Under source target :=
    fun h t' ht' => List.mem_singleton.mp ht' ▸ h
  have hnone : ∀ t' ∈ ([] : List Task), t'.Under source target := fun t' ht' =>
    absurd ht' List.not_mem_nil
  cases h with
  | @make x hx =>
    refine (Act.within_change hR fun d d' hd hm => ?_).bind fun _ _ =>
      Act.within_pure (hone (.list hx))
    exact hd.makes (ht.down_fileNames hx) (Disk.nameFault?_of_makeDirectories hm)
      (Disk.makeDirectories_ok hm)
  | @list x hx =>
    refine (Act.within_ask (P := fun names => ∀ n ∈ names, Text.IsFileName n)
      fun d names hd hl n hn => ?_).bind fun names hnames => Act.within_pure fun t' ht' => ?_
    · obtain ⟨-, -, rfl⟩ := Disk.list_eq_ok hl
      exact hd.fileName (Disk.mem_namesIn.mp hn)
    · obtain ⟨p, hp, ht'⟩ := List.mem_flatMap.mp ht'
      obtain ⟨n, hn, rfl⟩ := List.mem_map.mp hp
      refine under_ofName (fun m hm => ?_) t' ht'
      exact (List.mem_append.mp hm).elim (hx m) fun hm => List.mem_singleton.mp hm ▸ hnames n hn
  | compare hx hc =>
    refine (Act.within_ask fun _ _ _ _ => trivial).bind fun b _ => ?_
    cases b with
    | true => exact Act.within_pure hnone
    | false => exact Act.within_pure (hone (.classify hx))
  | @classify x n hx =>
    have hn : n.IsFileName := hx n (List.mem_append_right _ List.mem_cons_self)
    refine (Act.within_ask fun _ _ _ _ => trivial).bind fun b _ => ?_
    rw [Path.append_fileName hn, Path.append_fileName hn, Path.down_down, Path.down_down]
    cases b with
    | true => exact Act.within_pure (hone (.make hx))
    | false =>
      rw [if_neg Bool.false_ne_true]
      split
      · exact Act.within_pure (hone (.redirect hx))
      · exact Act.within_pure (hone (.copy hx))
  | @redirect x n hx =>
    have hn : n.IsFileName := hx n (List.mem_append_right _ List.mem_cons_self)
    refine (Act.within_ask fun _ _ _ _ => trivial).bind fun bytes _ => ?_
    refine (Act.within_decode bytes).bind fun cs _ => ?_
    refine (Act.within_records _).bind fun _ _ => ?_
    refine (Act.within_orFail fun _ _ => trivial).bind fun out _ => ?_
    refine (Act.within_decode out).bind fun cs' _ => Act.within_pure ?_
    rw [Path.append_fileName hn, Path.down_down]
    exact hone (.write hx _)
  | @write x n hx bytes =>
    refine (Act.within_change hR fun d d' hd hw => ?_).bind fun _ _ => Act.within_pure hnone
    obtain ⟨hwrites, hwritable⟩ := Disk.writeFile_eq (ht.down_fileNames hx) hd.tag hw
    exact hd.writes (ht.down_fileNames hx) hwritable.target hwrites
  | @copy x n hx =>
    refine (Act.within_change hR fun d d' hd hw => ?_).bind fun _ _ => Act.within_pure hnone
    obtain ⟨⟨bytes, hwrites⟩, hwritable⟩ := Disk.copyFile_eq (ht.down_fileNames hx) hd.tag hw
    exact hd.writes (ht.down_fileNames hx) hwritable.target hwrites

/-- A step of a task changes the target alone, and leaves tasks of the same copy. -/
theorem within_step (r : Rules) (ht : target.IsResolved)
    (hinside : ∀ q, target.parts <+: q → inside q)
    (habove : ∀ q, q <+: target.parts → inside q ∨ above q) {t : Task} (h : t.Under source target) :
    Act.Within (Disk.Grows inside above) (t.step r) fun p =>
      ∀ t' ∈ p.tasks, t'.Under source target := by
  refine within_change_step r ht h fun d hd => ?_
  cases h with
  | @make x hx =>
    refine Disk.grows_makeDirectories (ht.down_fileNames hx) fun q hq => ?_
    rcases List.prefix_or_prefix_of_prefix hq (List.prefix_append target.parts x) with hq | hq
    · exact habove q hq
    · exact Or.inl (hinside q hq)
  | list _ | compare _ _ | classify _ | redirect _ => exact .refl d
  | write hx bytes =>
    exact Disk.grows_writeFile (ht.down_fileNames hx) bytes (hinside _ (List.prefix_append _ _))
  | copy hx =>
    exact Disk.grows_copyFile (ht.down_fileNames hx) _ (hinside _ (List.prefix_append _ _))

theorem within_rounds (r : Rules) (ht : target.IsResolved)
    (hinside : ∀ q, target.parts <+: q → inside q)
    (habove : ∀ q, q <+: target.parts → inside q ∨ above q) (n : Nat) {ts : List Task}
    (h : ∀ t ∈ ts, t.Under source target) :
    Act.Within (Disk.Grows inside above) (rounds r n ts) fun _ => True := by
  induction n generalizing ts with
  | zero =>
    cases ts with
    | nil => exact Act.within_pure trivial
    | cons t ts => exact Act.within_throw
  | succ n ih =>
    cases ts with
    | nil => exact Act.within_pure trivial
    | cons t ts =>
      rw [rounds]
      refine (Act.within_mapM fun t' ht' => within_step r ht hinside habove (h t' ht')).bind
        fun ps hps => ?_
      refine (ih fun t' ht' => ?_).bind fun _ _ => Act.within_pure trivial
      obtain ⟨p, hp, ht'⟩ := List.mem_flatMap.mp ht'
      exact hps p hp t' ht'

/-- **Copying a directory changes its target alone**: all else stays, but for directories above the
target that are made. -/
theorem within_copyTree (r : Rules) (ht : target.IsResolved)
    (hinside : ∀ q, target.parts <+: q → inside q)
    (habove : ∀ q, q <+: target.parts → inside q ∨ above q) :
    Act.Within (Disk.Grows inside above) (copyTree r source target) fun _ => True := by
  refine @within_rounds source target _ _ r ht hinside habove _ _ fun t h => ?_
  rw [List.mem_singleton.mp h]
  exact under_make source target

end Frame

end Assembly

end UberPackage
