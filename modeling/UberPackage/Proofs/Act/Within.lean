/-
  Whatever comes of an act.

  An act keeps within a relation of disks (`Act.Within`) when it changes a file tree only as the
  relation allows, also when it fails; when it succeeds it leaves a file tree, and what it gives is
  as it should be.  Each building block of acts has one lemma, so that an act is followed along its
  text.
-/
import Mathlib.Order.Defs.Unbundled
import UberPackage.Proofs.Act
import UberPackage.Proofs.Disk.Tree

namespace UberPackage.Act

variable {α β ε : Type} {R R' : Disk → Disk → Prop} {a : Act α} {P Q : α → Prop}

/-- The act changes file trees only as the relation allows, and gives only what it should. -/
def Within (R : Disk → Disk → Prop) (a : Act α) (P : α → Prop) : Prop :=
  ∀ w, w.disk.IsFileTree → R w.disk (a.runIn w).2.disk ∧
    ∀ x, (a.runIn w).1 = .ok x → (a.runIn w).2.disk.IsFileTree ∧ P x

namespace Within

/-- What an act that succeeds leaves and gives. -/
theorem does (h : Within R a P) {w w' : World} {x : α} (hw : w.disk.IsFileTree)
    (ha : Does a w x w') : R w.disk w'.disk ∧ w'.disk.IsFileTree ∧ P x := by
  obtain ⟨hr, hok⟩ := h w hw
  rw [Does] at ha
  rw [ha] at hr hok
  exact ⟨hr, hok x rfl⟩

theorem mono (h : Within R a P) (hR : ∀ d d', R d d' → R' d d') (hP : ∀ x, P x → Q x) :
    Within R' a Q := fun w hw =>
  ⟨hR _ _ (h w hw).1, fun x hx => ⟨((h w hw).2 x hx).1, hP x ((h w hw).2 x hx).2⟩⟩

theorem weaken (h : Within R a P) (hP : ∀ x, P x → Q x) : Within R a Q :=
  h.mono (fun _ _ => id) hP

/-- What follows an act in a world has only to keep within the relation for what the act gives
there. -/
theorem bind_at [IsTrans Disk R] {f : α → Act β} {Q : β → Prop} (ha : Within R a P) {w : World}
    (hw : w.disk.IsFileTree) (hf : ∀ x v, Does a w x v → P x → Within R (f x) Q) :
    R w.disk ((a >>= f).runIn w).2.disk ∧ ∀ x, ((a >>= f).runIn w).1 = .ok x →
      ((a >>= f).runIn w).2.disk.IsFileTree ∧ Q x := by
  obtain ⟨hr, hok⟩ := ha w hw
  show R w.disk (ExceptT.bindCont f (runIn a w).1 (runIn a w).2).2.disk ∧ ∀ x,
    (ExceptT.bindCont f (runIn a w).1 (runIn a w).2).1 = .ok x →
      (ExceptT.bindCont f (runIn a w).1 (runIn a w).2).2.disk.IsFileTree ∧ Q x
  unfold Does at hf
  generalize runIn a w = o at hr hok hf ⊢
  obtain ⟨e | x, v⟩ := o
  · refine ⟨hr, fun x hx => ?_⟩
    cases hx
  · obtain ⟨hv, hx⟩ := hok x rfl
    obtain ⟨hr', hok'⟩ := hf x v rfl hx v hv
    exact ⟨IsTrans.trans _ _ _ hr hr', hok'⟩

theorem bind [IsTrans Disk R] {f : α → Act β} {Q : β → Prop} (ha : Within R a P)
    (hf : ∀ x, P x → Within R (f x) Q) : Within R (a >>= f) Q :=
  fun _ hw => ha.bind_at hw fun x _ _ => hf x

end Within

section Blocks

variable [Std.Refl R]

theorem within_pure {x : α} (h : P x) : Within R (pure x) P := fun w hw => by
  refine ⟨Std.Refl.refl _, fun y hy => ⟨hw, ?_⟩⟩
  rw [← Except.ok.inj (show Except.ok x = Except.ok y from hy)]
  exact h

theorem within_throw {e : Failure} : Within R (throw e) P := fun w _ => by
  refine ⟨Std.Refl.refl _, fun y hy => ?_⟩
  cases show Except.error e = Except.ok y from hy

theorem within_orFail {fail : ε → Failure} {v : Except ε α} (h : ∀ x, v = .ok x → P x) :
    Within R (orFail fail v) P := by
  cases v with
  | error e => exact within_throw
  | ok x => exact within_pure (h x rfl)

theorem within_records (rs : List Record) : Within R (records rs) fun _ => True :=
  fun _ hw => ⟨Std.Refl.refl _, fun _ _ => ⟨hw, trivial⟩⟩

theorem within_ask {query : Disk → Except FileFault α}
    (h : ∀ d x, d.IsFileTree → query d = .ok x → P x) : Within R (ask query) P := by
  intro w hw
  have hrun : (ask query).runIn w = (orFail .file (query w.disk)).runIn w := rfl
  rw [hrun]
  exact within_orFail (R := R) (h w.disk · hw) w hw

theorem within_decode (bytes : Bytes) : Within R (decode bytes) fun _ => True := by
  unfold decode
  split
  · exact within_pure trivial
  · exact within_throw

theorem within_encode (t : Text) : Within R (encode t) fun _ => True := by
  unfold encode
  split
  · exact within_pure trivial
  · exact within_throw

end Blocks

/-- A change of a disk, made or failed. -/
theorem within_change {change : Disk → Disk.Outcome} (hR : ∀ d, d.IsFileTree → R d (change d).1)
    (hdone : ∀ d d', d.IsFileTree → change d = (d', none) → d'.IsFileTree) :
    Within R (Act.change change) fun _ => True := by
  intro w hw
  have hrun : (Act.change change).runIn w = (Act.change fun _ => change w.disk).runIn w := rfl
  have hr := hR w.disk hw
  rw [hrun]
  cases hc : change w.disk with
  | mk d f =>
    rw [hc] at hr
    cases f with
    | none => exact ⟨hr, fun _ _ => ⟨hdone _ _ hw hc, trivial⟩⟩
    | some f =>
      refine ⟨hr, fun x hx => ?_⟩
      cases show Except.error (Failure.file f) = Except.ok x from hx

section Lists

variable [IsPreorder Disk R]

theorem within_mapM {f : α → Act β} {P : β → Prop} {l : List α}
    (h : ∀ x ∈ l, Within R (f x) P) : Within R (l.mapM f) fun ys => ∀ y ∈ ys, P y := by
  induction l with
  | nil =>
    rw [List.mapM_nil]
    exact within_pure fun y hy => absurd hy List.not_mem_nil
  | cons x l ih =>
    rw [List.mapM_cons]
    refine (h x List.mem_cons_self).bind fun y hy => ?_
    refine (ih fun z hz => h z (List.mem_cons_of_mem _ hz)).bind fun ys hys => within_pure ?_
    exact List.forall_mem_cons.mpr ⟨hy, hys⟩

theorem within_filterM {p : α → Act Bool} {l : List α} (h : ∀ x ∈ l, Within R (p x) fun _ => True) :
    Within R (l.filterM p) fun ys => ∀ y ∈ ys, y ∈ l := by
  have hall : ∀ (l acc : List α), (∀ x ∈ l, Within R (p x) fun _ => True) →
      Within R (l.filterAuxM p acc) fun ys => ∀ y ∈ ys, y ∈ l ∨ y ∈ acc := by
    intro l
    induction l with
    | nil => exact fun acc _ => within_pure fun y hy => Or.inr hy
    | cons x l ih =>
      intro acc hl
      rw [List.filterAuxM]
      refine (hl x List.mem_cons_self).bind fun b _ => ?_
      refine (ih _ fun z hz => hl z (List.mem_cons_of_mem _ hz)).weaken fun ys hys y hy => ?_
      rcases hys y hy with hl' | hacc
      · exact Or.inl (List.mem_cons_of_mem _ hl')
      · cases b with
        | true =>
          refine (List.mem_cons.mp hacc).imp_left ?_
          rintro rfl
          exact List.mem_cons_self
        | false => exact Or.inr hacc
  refine (hall l [] h).bind fun ys hys => within_pure fun y hy => ?_
  exact (hys y (List.mem_reverse.mp hy)).resolve_right List.not_mem_nil

end Lists

/-! ## Files and documents -/

section Documents

variable [IsPreorder Disk R]

theorem within_readText (p : Path) : Within R (readText p) fun _ => True := by
  refine (within_ask fun _ _ _ _ => trivial).bind fun bytes _ => ?_
  exact (within_decode bytes).bind fun _ _ => within_pure trivial

theorem within_readDocument (p : Path) : Within R (readDocument p) fun _ => True :=
  (within_readText p).bind fun _ _ => within_orFail fun _ _ => trivial

/-- Writing a text changes its file alone. -/
theorem within_writeText {inside above : Place → Prop} {p : Path} (hp : p.IsResolved)
    (hin : inside p.parts) (t : Text) :
    Within (Disk.Grows inside above) (writeText p t) fun _ => True := by
  refine (within_encode t).bind fun bytes _ => ?_
  refine within_change (fun d hd => Disk.grows_writeFile hp bytes hin) fun d d' hd h => ?_
  obtain ⟨hw, hwritable⟩ := Disk.writeFile_eq hp hd.tag h
  exact hd.writes hp hwritable.target hw

end Documents

end UberPackage.Act
