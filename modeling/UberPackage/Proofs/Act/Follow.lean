/-
  An act that succeeds again.

  Two disks are related.  An act can be followed (`Act.Follows`) when, wherever it has succeeded on
  the first disk, it succeeds on the second one, gives the same value and leaves disks that are
  related again.  Each building block of acts has one lemma, so that an act is followed along its
  text.
-/
import UberPackage.Proofs.Act

namespace UberPackage.Act

variable {α β ε : Type} {R : Disk → Disk → Prop}

/-- What the act has done on a disk, it does on each disk that is related to it. -/
def Follows (R : Disk → Disk → Prop) (a : Act α) : Prop :=
  ∀ w x w', Does a w x w' → ∀ e, R w.disk e → ∃ e', Gives a e x e' ∧ R w'.disk e'

/-- What comes after an act has to be followed for what the act gives. -/
theorem Follows.bind {a : Act α} {f : α → Act β} (ha : Follows R a)
    (hf : ∀ w x w' e, R w.disk e → Does a w x w' → Follows R (f x)) : Follows R (a >>= f) := by
  intro w y w' h e hR
  obtain ⟨x, v, hx, hy⟩ := does_bind.mp h
  obtain ⟨e₁, hgives, hR₁⟩ := ha _ _ _ hx _ hR
  obtain ⟨e₂, hgives', hR₂⟩ := hf _ _ _ _ hR hx _ _ _ hy _ hR₁
  exact ⟨e₂, hgives.bind hgives', hR₂⟩

theorem follows_pure (x : α) : Follows R (pure x) := by
  intro w y w' h e hR
  obtain ⟨rfl, rfl⟩ := does_pure.mp h
  exact ⟨e, gives_pure, hR⟩

theorem follows_throw (f : Failure) : Follows R (throw f : Act α) :=
  fun _ _ _ h => absurd h does_throw

theorem follows_orFail (fail : ε → Failure) (v : Except ε α) : Follows R (orFail fail v) := by
  intro w x w' h e hR
  obtain ⟨hv, rfl⟩ := does_orFail.mp h
  exact ⟨e, gives_orFail hv, hR⟩

theorem follows_records (rs : List Record) : Follows R (records rs) := by
  intro w x w' h e hR
  refine ⟨e, gives_records rs, ?_⟩
  rwa [← does_records.mp h]

theorem follows_decode (bytes : Bytes) : Follows R (decode bytes) := by
  unfold decode
  split
  · exact follows_pure _
  · exact follows_throw _

theorem follows_encode (t : Text) : Follows R (encode t) := by
  unfold encode
  split
  · exact follows_pure _
  · exact follows_throw _

/-- A question that has the same answer on both disks. -/
theorem follows_ask {query : Disk → Except FileFault α}
    (h : ∀ d e x, R d e → query d = .ok x → query e = .ok x) : Follows R (ask query) := by
  intro w x w' ha e hR
  obtain ⟨hquery, rfl⟩ := does_ask.mp ha
  exact ⟨e, gives_ask (h _ _ _ hR hquery), hR⟩

/-- A change that keeps the disks related. -/
theorem follows_change {change : Disk → Disk.Outcome}
    (h : ∀ d d' e, R d e → change d = (d', none) → ∃ e', change e = (e', none) ∧ R d' e') :
    Follows R (Act.change change) := by
  intro w x w' ha e hR
  obtain ⟨d', hd', rfl⟩ := does_change.mp ha
  obtain ⟨e', he', hR'⟩ := h _ _ _ hR hd'
  exact ⟨e', gives_change he', hR'⟩

theorem follows_mapM {f : α → Act β} {l : List α} (h : ∀ a ∈ l, Follows R (f a)) :
    Follows R (l.mapM f) := by
  induction l with
  | nil =>
    rw [List.mapM_nil]
    exact follows_pure _
  | cons a l ih =>
    rw [List.mapM_cons]
    refine (h a List.mem_cons_self).bind fun _ _ _ _ _ _ => ?_
    refine (ih fun b hb => h b (List.mem_cons_of_mem _ hb)).bind fun _ _ _ _ _ _ => ?_
    exact follows_pure _

end UberPackage.Act
