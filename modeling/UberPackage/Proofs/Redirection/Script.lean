/-
  Edit scripts: a source and a result, side by side.

  A `Script` lists stretches that stay and stretches that change.  Read along one side it gives
  the source (`Script.before`), along the other the result (`Script.after`); turned round it
  leads back (`Script.inverse`).  Its changes, each at its byte offset in the source, are edits,
  and making the edits from the last to the first turns the source into the result
  (`Script.foldr_edits`).

  Changes of a text that keep apart from one another are the changes of a script, and applying them
  in any order gives its result (`Script.exists_of_apart`).  When every change takes something away,
  its place among the others is fixed, and so the inverse of a script that always puts something in
  undoes it (`Script.applyAll_inverse`).
-/
import Mathlib.Data.List.Basic
import Mathlib.Data.List.Nodup
import UberPackage.Redirection
import UberPackage.Proofs.Text.Slice

namespace UberPackage

namespace Edit

theorem notBefore_iff {a b : Edit} :
    a.notBefore b = true ↔ b.start < a.start ∨ (a.start = b.start ∧ b.stop ≤ a.stop) := by
  simp [notBefore]

theorem notBefore_trans {a b c : Edit} (hab : a.notBefore b = true) (hbc : b.notBefore c = true) :
    a.notBefore c = true := by
  rw [notBefore_iff] at *
  omega

theorem notBefore_total (a b : Edit) : (a.notBefore b || b.notBefore a) = true := by
  rw [Bool.or_eq_true, notBefore_iff, notBefore_iff]
  omega

/-- Sorting by the edits of a list's elements. -/
theorem pairwise_sorted {α : Type} (f : α → Edit) (l : List α) :
    (l.mergeSort fun a b => (f a).notBefore (f b)).Pairwise fun a b =>
      (f a).notBefore (f b) = true := by
  refine List.pairwise_mergeSort ?_ ?_ l
  · exact fun _ _ _ => notBefore_trans
  · exact fun a b => notBefore_total (f a) (f b)

end Edit

/-- A change of the characters that stand at a byte offset. -/
structure Change where
  offset : Nat
  old : List Char
  new : List Char
deriving DecidableEq

namespace Change

/-- The offset behind the characters that change. -/
def stop (c : Change) : Nat := c.offset + Utf8.size c.old

/-- The change as an edit of bytes. -/
def edit (c : Change) : Edit := ⟨c.offset, c.stop, Utf8.encode c.new⟩

/-- The characters to change stand in the text. -/
def Fits (cs : List Char) (c : Change) : Prop :=
  ∃ a b, cs = a ++ c.old ++ b ∧ Utf8.size a = c.offset

/-- One change ends before the other begins. -/
def Apart (c d : Change) : Prop := c.stop ≤ d.offset ∨ d.stop ≤ c.offset

theorem offset_le_stop (c : Change) : c.offset ≤ c.stop := Nat.le_add_right _ _

theorem Apart.symm {c d : Change} (h : c.Apart d) : d.Apart c := Or.symm h

end Change

/-- A stretch of a source: one that stays or one that changes. -/
inductive Piece where
  | keep (cs : List Char)
  | change (old new : List Char)

namespace Piece

def before : Piece → List Char
  | keep cs => cs
  | change old _ => old

def after : Piece → List Char
  | keep cs => cs
  | change _ new => new

/-- The way back. -/
def inverse : Piece → Piece
  | keep cs => keep cs
  | change old new => change new old

theorem before_inverse (p : Piece) : p.inverse.before = p.after := by cases p <;> rfl

theorem after_inverse (p : Piece) : p.inverse.after = p.before := by cases p <;> rfl

end Piece

/-- A source and a result, stretch by stretch. -/
abbrev Script := List Piece

namespace Script

/-- The source. -/
def before (s : Script) : List Char := s.flatMap Piece.before

/-- The result. -/
def after (s : Script) : List Char := s.flatMap Piece.after

/-- The way back from the result to the source. -/
def inverse (s : Script) : Script := s.map Piece.inverse

/-- The changes, for a source that begins at an offset. -/
def changesFrom (offset : Nat) : Script → List Change
  | [] => []
  | .keep cs :: s => changesFrom (offset + Utf8.size cs) s
  | .change old new :: s => ⟨offset, old, new⟩ :: changesFrom (offset + Utf8.size old) s

/-- The changes, from left to right. -/
def changes (s : Script) : List Change := changesFrom 0 s

/-- The changes as edits. -/
def edits (s : Script) : List Edit := s.changes.map Change.edit

theorem before_cons (p : Piece) (s : Script) : before (p :: s) = p.before ++ before s := rfl

theorem after_cons (p : Piece) (s : Script) : after (p :: s) = p.after ++ after s := rfl

theorem before_inverse (s : Script) : s.inverse.before = s.after := by
  rw [before, inverse, List.flatMap_map, after]
  exact List.flatMap_congr fun p _ => p.before_inverse

theorem after_inverse (s : Script) : s.inverse.after = s.before := by
  rw [after, inverse, List.flatMap_map, before]
  exact List.flatMap_congr fun p _ => p.after_inverse

theorem le_offset_of_mem {k : Nat} {s : Script} {c : Change} (h : c ∈ changesFrom k s) :
    k ≤ c.offset := by
  induction s generalizing k with
  | nil => exact absurd h List.not_mem_nil
  | cons p s ih =>
    cases p with
    | keep cs => exact Nat.le_trans (Nat.le_add_right _ _) (ih h)
    | change old new =>
      rcases List.mem_cons.mp h with rfl | h
      · exact Nat.le_refl _
      · exact Nat.le_trans (Nat.le_add_right _ _) (ih h)

/-- The changes of a script follow one another. -/
theorem pairwise_changesFrom (k : Nat) (s : Script) :
    (changesFrom k s).Pairwise (fun c d => c.stop ≤ d.offset) := by
  induction s generalizing k with
  | nil => exact List.Pairwise.nil
  | cons p s ih =>
    cases p with
    | keep cs => exact ih _
    | change old new => exact List.pairwise_cons.mpr ⟨fun d hd => le_offset_of_mem hd, ih _⟩

/-- Without changes the result is the source. -/
theorem after_of_changes_eq_nil {s : Script} (h : s.changes = []) : s.after = s.before := by
  unfold changes at h
  generalize 0 = k at h
  induction s generalizing k with
  | nil => rfl
  | cons p s ih =>
    cases p with
    | keep cs => rw [after_cons, before_cons, ih _ h]; rfl
    | change old new => exact absurd h (List.cons_ne_nil _ _)

/-! ## Making the edits -/

/-- An edit inside a text. -/
theorem apply_encode (a old new : List Char) (rest : Bytes) (k : Nat) (hk : Utf8.size a = k) :
    (Change.edit ⟨k, old, new⟩).apply (Utf8.encode (a ++ old) ++ rest) =
      Utf8.encode (a ++ new) ++ rest := by
  subst hk
  have htake : (Utf8.encode (a ++ old) ++ rest).take (Utf8.size a) = Utf8.encode a := by
    rw [Utf8.encode_append, List.append_assoc, ← Utf8.length_encode, List.take_left]
  have hdrop : (Utf8.encode (a ++ old) ++ rest).drop (Utf8.size a + Utf8.size old) = rest := by
    rw [← Utf8.size_append, ← Utf8.length_encode, List.drop_left]
  show List.take (Utf8.size a) _ ++ Utf8.encode new ++
    List.drop (max (Utf8.size a) (Utf8.size a + Utf8.size old)) _ = _
  rw [Nat.max_eq_right (Nat.le_add_right _ _), htake, hdrop, Utf8.encode_append]

/-- The edits of a script, made from the last to the first, turn the source into the result. -/
theorem foldr_edits (a : List Char) (s : Script) :
    ((changesFrom (Utf8.size a) s).map Change.edit).foldr Edit.apply (Utf8.encode (a ++ s.before)) =
      Utf8.encode (a ++ s.after) := by
  induction s generalizing a with
  | nil => rfl
  | cons p s ih =>
    cases p with
    | keep cs =>
      rw [changesFrom, ← Utf8.size_append, before_cons, after_cons, Piece.before, Piece.after,
        ← List.append_assoc, ← List.append_assoc, ih]
    | change old new =>
      rw [changesFrom, List.map_cons, List.foldr_cons, ← Utf8.size_append, before_cons, after_cons,
        Piece.before, Piece.after, ← List.append_assoc, ih, Utf8.encode_append (a ++ old),
        apply_encode a old new _ _ rfl, ← Utf8.encode_append, List.append_assoc]

theorem foldl_reverse_edits (s : Script) :
    s.edits.reverse.foldl (fun bytes e => e.apply bytes) (Utf8.encode s.before) =
      Utf8.encode s.after := by
  rw [List.foldl_reverse]
  exact foldr_edits [] s

/-! ## From changes to a script -/

/-- Changes that fit and follow one another make a script. -/
theorem exists_of_ordered (a cs : List Char) (changes : List Change)
    (fits : ∀ c ∈ changes, c.Fits (a ++ cs)) (inside : ∀ c ∈ changes, Utf8.size a ≤ c.offset)
    (ordered : changes.Pairwise (fun c d => c.stop ≤ d.offset)) :
    ∃ s : Script, s.before = cs ∧ changesFrom (Utf8.size a) s = changes := by
  induction changes generalizing a cs with
  | nil => exact ⟨[.keep cs], by simp [before, Piece.before], rfl⟩
  | cons c changes ih =>
    obtain ⟨hc, ordered⟩ := List.pairwise_cons.mp ordered
    obtain ⟨x, y, he, hx⟩ := fits c List.mem_cons_self
    have hle : Utf8.size a ≤ Utf8.size x := hx ▸ inside c List.mem_cons_self
    rw [List.append_assoc] at he
    obtain ⟨m, rfl, rfl⟩ := Utf8.exists_append_of_size_le he hle
    -- what stands before the end of this change has been dealt with
    have hstop : Utf8.size (a ++ m ++ c.old) = c.stop := by rw [Utf8.size_append, hx, Change.stop]
    obtain ⟨s, hs, hchanges⟩ := ih (a ++ m ++ c.old) y
      (fun d hd => by simpa using fits d (List.mem_cons_of_mem _ hd))
      (fun d hd => by rw [hstop]; exact hc d hd) ordered
    refine ⟨.keep m :: .change c.old c.new :: s, ?_, ?_⟩
    · rw [before_cons, before_cons, hs]; rfl
    · rw [changesFrom, changesFrom, ← Utf8.size_append, ← Utf8.size_append, hchanges, hx]

/-- Of two changes that keep apart, the one that does not stand before the other follows it. -/
theorem stop_le_of_notBefore {c d : Change} (h : c.Apart d)
    (hn : c.edit.notBefore d.edit = true) : d.stop ≤ c.offset := by
  have hc := c.offset_le_stop
  have hd := d.offset_le_stop
  have hcd : d.offset < c.offset ∨ (c.offset = d.offset ∧ d.stop ≤ c.stop) :=
    Edit.notBefore_iff.mp hn
  rcases h with h | h <;> omega

/-- Changes that fit and keep apart are the changes of a script, and applying them gives its
result. -/
theorem exists_of_apart (cs : List Char) (changes : List Change) (fits : ∀ c ∈ changes, c.Fits cs)
    (apart : changes.Pairwise Change.Apart) :
    ∃ s : Script, s.before = cs ∧ s.changes.Perm changes ∧
      Edit.applyAll (changes.map Change.edit) (Utf8.encode cs) = Utf8.encode s.after := by
  let sorted := changes.mergeSort fun c d => c.edit.notBefore d.edit
  have hperm : sorted.Perm changes := List.mergeSort_perm _ _
  have hapart : sorted.Pairwise Change.Apart :=
    (hperm.pairwise_iff fun h => h.symm).mpr apart
  have hsorted : sorted.Pairwise fun c d => c.edit.notBefore d.edit = true :=
    Edit.pairwise_sorted Change.edit changes
  have hordered : sorted.reverse.Pairwise fun c d => c.stop ≤ d.offset := by
    rw [List.pairwise_reverse]
    exact (hapart.and hsorted).imp fun h => stop_le_of_notBefore h.1 h.2
  obtain ⟨s, hs, hchanges⟩ := exists_of_ordered [] cs sorted.reverse
    (fun c hc => fits c (hperm.mem_iff.mp (List.mem_reverse.mp hc)))
      (fun c _ => Nat.zero_le _) hordered
  have hsort : (changes.map Change.edit).mergeSort Edit.notBefore = s.edits.reverse := by
    rw [edits, Script.changes, show changesFrom 0 s = sorted.reverse from hchanges,
      List.map_reverse, List.reverse_reverse]
    refine (List.map_mergeSort ?_).symm
    exact fun _ _ _ _ => rfl
  refine ⟨s, hs, ?_, ?_⟩
  · rw [Script.changes, show changesFrom 0 s = sorted.reverse from hchanges]
    exact (List.reverse_perm _).trans hperm
  · rw [Edit.applyAll, hsort, ← hs, foldl_reverse_edits]

/-! ## The way back -/

/-- The edits of a script begin at different places when all its changes take something away. -/
theorem pairwise_edits {s : Script} (h : ∀ c ∈ s.changes, c.old ≠ []) :
    s.edits.Pairwise fun a b => a.start < b.start := by
  rw [edits, List.pairwise_map]
  refine (pairwise_changesFrom 0 s).imp_of_mem fun {c d} hc _ hcd => ?_
  have hpos : 0 < Utf8.size c.old := Nat.pos_of_ne_zero fun h0 => h c hc (Utf8.size_eq_zero.mp h0)
  show c.offset < d.offset
  rw [Change.stop] at hcd
  omega

/-- Sorting finds the order of edits that begin at different places. -/
theorem mergeSort_of_starts {edits : List Edit} (h : edits.Pairwise fun a b => a.start < b.start) :
    edits.mergeSort Edit.notBefore = edits.reverse := by
  have hnodup : (edits.map Edit.start).Nodup :=
    List.pairwise_map.mpr (h.imp fun h => Nat.ne_of_lt h)
  have hperm := List.mergeSort_perm edits Edit.notBefore
  refine List.Perm.eq_of_pairwise (fun a b ha hb hab hba => ?_)
    (Edit.pairwise_sorted id edits)
    (List.pairwise_reverse.mpr (h.imp fun h => Edit.notBefore_iff.mpr (Or.inl h)))
    (hperm.trans (List.reverse_perm _).symm)
  refine List.inj_on_of_nodup_map hnodup (hperm.mem_iff.mp ha) (List.mem_reverse.mp hb) ?_
  have hab := Edit.notBefore_iff.mp hab
  have hba := Edit.notBefore_iff.mp hba
  simp only [id] at hab hba
  omega

/-- Applying the edits of a script that begin at different places. -/
theorem applyAll_edits {s : Script} (h : s.edits.Pairwise fun a b => a.start < b.start) :
    Edit.applyAll s.edits (Utf8.encode s.before) = Utf8.encode s.after := by
  rw [Edit.applyAll, mergeSort_of_starts h, foldl_reverse_edits]

/-- The changes on the way back put in what the script takes away, and the other way round. -/
theorem exists_of_mem_inverse {k l : Nat} {s : Script} {c : Change}
    (h : c ∈ changesFrom k s.inverse) : ∃ d ∈ changesFrom l s, c.old = d.new ∧ c.new = d.old := by
  induction s generalizing k l with
  | nil => exact absurd h List.not_mem_nil
  | cons p s ih =>
    cases p with
    | keep cs => exact ih h
    | change old new =>
      rcases List.mem_cons.mp h with rfl | h
      · exact ⟨_, List.mem_cons_self, rfl, rfl⟩
      · obtain ⟨d, hd, he⟩ := ih h
        exact ⟨d, List.mem_cons_of_mem _ hd, he⟩

/-- Undoing a script whose changes all put something in gives the source back. -/
theorem applyAll_inverse {s : Script} (h : ∀ c ∈ s.changes, c.new ≠ []) :
    Edit.applyAll s.inverse.edits (Utf8.encode s.after) = Utf8.encode s.before := by
  have hold : ∀ c ∈ s.inverse.changes, c.old ≠ [] := fun c hc => by
    obtain ⟨d, hd, he, -⟩ := exists_of_mem_inverse (l := 0) hc
    rw [he]
    exact h d hd
  rw [← before_inverse, applyAll_edits (pairwise_edits hold), after_inverse]

end Script

end UberPackage
