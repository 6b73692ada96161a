/-
  Paths taken apart.

  A component is one ordinary part of a path (`Text.IsComponent`), and a path that is resolved has
  nothing else (`Path.IsResolved`).  Appending a component goes down by it
  (`Path.append_component`), and resolving a path resolves it (`Path.isResolved_resolve`).
-/
import Mathlib.Data.List.Basic
import UberPackage.Disk

namespace UberPackage

/-! ## Components -/

namespace Text

/-- One more unit belongs to the first piece, or begins a new one before it. -/
theorem splitOn_cons {c : Char} {t piece : Text} {rest : List Text}
    (h : t.splitOn c = piece :: rest) (x : Code) :
    splitOn c (x :: t) = if x = .char c then [] :: piece :: rest else (x :: piece) :: rest := by
  rw [splitOn] at h
  rw [splitOn, List.foldr_cons, h]

theorem splitOn_of_not_mem {c : Char} {t : Text} (h : Code.char c ∉ t) : t.splitOn c = [t] := by
  induction t with
  | nil => rfl
  | cons x t ih =>
    have hx : x ≠ .char c := fun he => h (he ▸ List.mem_cons_self)
    rw [splitOn_cons (ih fun hm => h (List.mem_cons_of_mem _ hm)), if_neg hx]

theorem splitOn_ne_nil (c : Char) (t : Text) : t.splitOn c ≠ [] := by
  cases t with
  | nil => exact List.cons_ne_nil _ _
  | cons x t =>
    rw [splitOn, List.foldr_cons]
    split
    · exact List.cons_ne_nil _ _
    · split <;> exact List.cons_ne_nil _ _

theorem mem_join {sep : Text} {c : Code} {ts : List Text} (h : c ∈ join sep ts) :
    c ∈ sep ∨ ∃ t ∈ ts, c ∈ t := by
  induction ts with
  | nil => exact absurd h List.not_mem_nil
  | cons t ts ih =>
    cases ts with
    | nil =>
      rw [join, List.intercalate_singleton] at h
      exact Or.inr ⟨t, List.mem_cons_self, h⟩
    | cons u ts =>
      rw [join, List.intercalate_cons_cons, List.mem_append, List.mem_append] at h
      rcases h with (h | h) | h
      · exact Or.inr ⟨t, List.mem_cons_self, h⟩
      · exact Or.inl h
      · exact (ih h).imp_right fun ⟨v, hv, hc⟩ => ⟨v, List.mem_cons_of_mem _ hv, hc⟩

theorem mem_join_of_mem {sep t : Text} {c : Code} {ts : List Text} (ht : t ∈ ts) (hc : c ∈ t) :
    c ∈ join sep ts := by
  induction ts with
  | nil => exact absurd ht List.not_mem_nil
  | cons u ts ih =>
    cases ts with
    | nil =>
      rw [join, List.intercalate_singleton]
      exact List.mem_singleton.mp ht ▸ hc
    | cons v ts =>
      rw [join, List.intercalate_cons_cons, List.mem_append, List.mem_append]
      rcases List.mem_cons.mp ht with rfl | ht
      · exact Or.inl (Or.inl hc)
      · exact Or.inr (ih ht)

/-- One ordinary part of a path. -/
structure IsComponent (t : Text) : Prop where
  ne_nil : t ≠ []
  ne_dot : t ≠ "."
  ne_dots : t ≠ ".."
  no_slash : Code.char '/' ∉ t

instance (t : Text) : Decidable t.IsComponent :=
  decidable_of_iff (t ≠ [] ∧ t ≠ "." ∧ t ≠ ".." ∧ Code.char '/' ∉ t)
    ⟨fun ⟨h, hd, hds, hs⟩ => ⟨h, hd, hds, hs⟩, fun h => ⟨h.ne_nil, h.ne_dot, h.ne_dots, h.no_slash⟩⟩

/-- At most one part of a path, and an ordinary one. -/
structure IsPlain (t : Text) : Prop where
  no_slash : Code.char '/' ∉ t
  ne_dots : t ≠ ".."

instance (t : Text) : Decidable t.IsPlain :=
  decidable_of_iff (Code.char '/' ∉ t ∧ t ≠ "..") ⟨fun ⟨hs, hd⟩ => ⟨hs, hd⟩,
    fun h => ⟨h.no_slash, h.ne_dots⟩⟩

theorem IsComponent.isPlain {t : Text} (h : t.IsComponent) : t.IsPlain := ⟨h.no_slash, h.ne_dots⟩

/-- A component between other text that has no slash. -/
theorem IsComponent.append_right {t u : Text} (hu : Code.char '/' ∉ u) (hlen : 3 ≤ (t ++ u).length)
    (ht : Code.char '/' ∉ t) : IsComponent (t ++ u) := by
  have hne : ∀ v : Text, v.length < 3 → t ++ u ≠ v := by
    rintro v hv rfl
    omega
  exact {
    ne_nil := hne _ (by decide)
    ne_dot := hne _ (by decide)
    ne_dots := hne _ (by decide)
    no_slash := fun h => (List.mem_append.mp h).elim ht hu }

end Text

/-! ## Going down -/

namespace Path

/-- The path to a place below. -/
def down (p : Path) (names : Place) : Path := { p with parts := p.parts ++ names }

theorem down_nil (p : Path) : p.down [] = p := by
  rw [down, List.append_nil]

theorem down_down (p : Path) (x y : Place) : (p.down x).down y = p.down (x ++ y) := by
  rw [down, down, down, List.append_assoc]

theorem anchorOf_of_head {t : Text} (h : t.head? ≠ some (.char '/')) : anchorOf t = .none := by
  cases t with
  | nil => rfl
  | cons c t =>
    have hc : c.isChar '/' = false := by
      cases hc : c.isChar '/' with
      | false => rfl
      | true => exact absurd (congrArg some (beq_iff_eq.mp hc)) h
    rw [anchorOf, List.takeWhile_cons, hc]
    rfl

theorem anchorOf_of_no_slash {t : Text} (h : Code.char '/' ∉ t) : anchorOf t = .none :=
  anchorOf_of_head fun he => h (List.mem_of_head? he)

theorem partsOf_of_no_slash {t : Text} (h : Code.char '/' ∉ t) : partsOf t = [t].filter isPart := by
  rw [partsOf, Text.splitOn_of_not_mem h]

theorem partsOf_component {n : Text} (h : n.IsComponent) : partsOf n = [n] := by
  rw [partsOf_of_no_slash h.no_slash]
  refine List.filter_cons_of_pos ?_
  rw [isPart, Bool.and_eq_true, bne_iff_ne, bne_iff_ne]
  exact ⟨h.ne_nil, h.ne_dot⟩

theorem partsOf_plain {t : Text} (h : t.IsPlain) : partsOf t = [] ∨ partsOf t = [t] := by
  rw [partsOf_of_no_slash h.no_slash, List.filter_cons]
  split
  · exact Or.inr rfl
  · exact Or.inl rfl

theorem append_plain {t : Text} (h : t.IsPlain) (p : Path) : p / t = p.down (partsOf t) := by
  show p.append t = _
  rw [append, ofText, anchorOf_of_no_slash h.no_slash, down]

theorem isComponent_of_mem_partsOf {t : Text} (h : t.IsPlain) : ∀ n ∈ partsOf t, n.IsComponent := by
  intro n hn
  rw [partsOf_of_no_slash h.no_slash] at hn
  obtain ⟨hmem, hpart⟩ := List.mem_filter.mp hn
  obtain rfl := List.mem_singleton.mp hmem
  rw [isPart, Bool.and_eq_true, bne_iff_ne, bne_iff_ne] at hpart
  exact ⟨hpart.1, hpart.2, h.ne_dots, h.no_slash⟩

theorem append_component {n : Text} (h : n.IsComponent) (p : Path) : p / n = p.down [n] := by
  rw [append_plain h.isPlain, partsOf_component h]

theorem mem_text {p : Path} {c : Code} (h : c ∈ p.text) :
    c = .char '.' ∨ c = .char '/' ∨ ∃ part ∈ p.parts, c ∈ part := by
  obtain ⟨a, parts⟩ := p
  have hjoin : c ∈ Text.join "/" parts → c = .char '/' ∨ ∃ part ∈ parts, c ∈ part := fun hc =>
    (Text.mem_join hc).imp_left List.mem_singleton.mp
  have hslash : ∀ b : Anchor, c ∈ Anchor.text b → c = .char '/' := fun b hc => by
    cases b with
    | none => exact absurd hc List.not_mem_nil
    | slash => exact List.mem_singleton.mp hc
    | twoSlashes => rcases List.mem_pair.mp hc with h | h <;> exact h
  rw [text] at h
  split at h
  · exact Or.inl (List.mem_singleton.mp h)
  · rcases List.mem_append.mp h with h | h
    · exact Or.inr (Or.inl (hslash _ h))
    · exact Or.inr (hjoin h)

theorem mem_text_of_mem {p : Path} {part : Text} {c : Code} (hp : part ∈ p.parts) (hc : c ∈ part) :
    c ∈ p.text := by
  obtain ⟨a, parts⟩ := p
  have hjoin : c ∈ Text.join "/" parts := Text.mem_join_of_mem hp hc
  cases parts with
  | nil => exact absurd hjoin List.not_mem_nil
  | cons q qs => cases a <;> exact List.mem_append_right _ hjoin

/-! ## Resolved paths -/

/-- The path is absolute, and its parts are ordinary. -/
structure IsResolved (p : Path) : Prop where
  anchor : p.anchor = .slash
  parts : ∀ part ∈ p.parts, part.IsComponent

namespace IsResolved

variable {p : Path}

theorem eq {q : Path} (h : p.IsResolved) (h' : q.IsResolved) (he : p.parts = q.parts) : p = q := by
  cases p
  cases q
  cases h.anchor
  cases h'.anchor
  cases he
  rfl

theorem isAbsolute (h : p.IsResolved) : p.isAbsolute = true := by
  rw [Path.isAbsolute, h.anchor]
  rfl

theorem ne_dots (h : p.IsResolved) : ∀ part ∈ p.parts, part ≠ ".." :=
  fun part hp => (h.parts part hp).ne_dots

theorem down (h : p.IsResolved) {y : Place} (hy : ∀ n ∈ y, Text.IsComponent n) :
    (p.down y).IsResolved where
  anchor := h.anchor
  parts part hp := (List.mem_append.mp hp).elim (h.parts part) (hy part)

theorem child (h : p.IsResolved) {n : Text} (hn : n.IsComponent) : (p / n).IsResolved := by
  rw [append_component hn]
  exact h.down fun m hm => List.mem_singleton.mp hm ▸ hn

theorem parent (h : p.IsResolved) : p.parent.IsResolved where
  anchor := h.anchor
  parts part hp := h.parts part (List.dropLast_subset _ hp)

end IsResolved

theorem parts_child {n : Text} (hn : n.IsComponent) (p : Path) :
    (p / n).parts = p.parts ++ [n] := by
  rw [append_component hn]
  rfl

/-! ## Resolving -/

/-- The parts of the path are ordinary or lead back. -/
def HasParts (p : Path) : Prop := ∀ part ∈ p.parts, part = ".." ∨ part.IsComponent

theorem IsResolved.hasParts {p : Path} (h : p.IsResolved) : p.HasParts :=
  fun part hp => Or.inr (h.parts part hp)

theorem no_slash_of_mem_splitOn {t piece : Text} (h : piece ∈ t.splitOn '/') :
    Code.char '/' ∉ piece := by
  induction t generalizing piece with
  | nil =>
    rw [List.mem_singleton.mp h]
    exact List.not_mem_nil
  | cons c t ih =>
    obtain ⟨first, rest, hsplit⟩ := List.exists_cons_of_ne_nil (Text.splitOn_ne_nil '/' t)
    rw [hsplit] at ih
    rw [Text.splitOn_cons hsplit] at h
    split at h
    · rcases List.mem_cons.mp h with rfl | h
      · exact List.not_mem_nil
      · exact ih h
    · next hc =>
      rcases List.mem_cons.mp h with rfl | h
      · rw [List.mem_cons, not_or]
        exact ⟨Ne.symm hc, ih List.mem_cons_self⟩
      · exact ih (List.mem_cons_of_mem _ h)

theorem hasParts_ofText (t : Text) : (ofText t).HasParts := by
  intro part hp
  obtain ⟨hmem, hpart⟩ := List.mem_filter.mp hp
  rw [isPart, Bool.and_eq_true, bne_iff_ne, bne_iff_ne] at hpart
  by_cases hdots : part = ".."
  · exact Or.inl hdots
  · exact Or.inr ⟨hpart.1, hpart.2, hdots, no_slash_of_mem_splitOn hmem⟩

theorem HasParts.div {p : Path} (h : p.HasParts) (t : Text) : (p / t).HasParts := by
  have ht := hasParts_ofText t
  show (p.append t).HasParts
  rw [append]
  split
  · exact fun part hp => (List.mem_append.mp hp).elim (h part) (ht part)
  · exact ht

/-- Without `..`, ordinary parts are left. -/
theorem isComponent_of_mem_resolveParts {parts : List Text}
    (h : ∀ part ∈ parts, part = ".." ∨ Text.IsComponent part) :
    ∀ part ∈ resolveParts parts, Text.IsComponent part := by
  have hfold : ∀ (parts stack : List Text), (∀ part ∈ parts, part = ".." ∨ Text.IsComponent part) →
      (∀ part ∈ stack, Text.IsComponent part) →
      ∀ part ∈ parts.foldl push stack, Text.IsComponent part := by
    intro parts
    induction parts with
    | nil => exact fun stack _ hs => hs
    | cons part parts ih =>
      intro stack hp hs
      refine ih (push stack part) (fun q hq => hp q (List.mem_cons_of_mem _ hq)) ?_
      unfold push
      split
      · exact fun q hq => hs q (List.mem_of_mem_drop hq)
      · next hdots =>
        intro q hq
        rcases List.mem_cons.mp hq with rfl | hq
        · exact (hp q List.mem_cons_self).resolve_left hdots
        · exact hs q hq
  intro part hp
  exact hfold parts [] h (fun q hq => absurd hq List.not_mem_nil) part (List.mem_reverse.mp hp)

/-- Resolving a path resolves it. -/
theorem isResolved_resolve {p cwd : Path} (hp : p.HasParts) (hcwd : cwd.HasParts) :
    (p.resolve cwd).IsResolved where
  anchor := rfl
  parts := by
    refine isComponent_of_mem_resolveParts ?_
    split
    · exact hp
    · exact fun part hm => (List.mem_append.mp hm).elim (hcwd part) (hp part)

theorem foldl_push {parts : List Text} (h : ∀ part ∈ parts, part ≠ "..") (stack : List Text) :
    parts.foldl push stack = parts.reverse ++ stack := by
  induction parts generalizing stack with
  | nil => rfl
  | cons part parts ih =>
    rw [List.foldl_cons, ih fun q hq => h q (List.mem_cons_of_mem _ hq), push,
      if_neg (h part List.mem_cons_self), List.reverse_cons, List.append_assoc]
    rfl

theorem IsResolved.resolveParts {p : Path} (h : p.IsResolved) : resolveParts p.parts = p.parts := by
  rw [Path.resolveParts, foldl_push h.ne_dots, List.append_nil, List.reverse_reverse]

/-- A resolved path is what it means. -/
theorem IsResolved.resolve {p : Path} (h : p.IsResolved) (cwd : Path) : p.resolve cwd = p := by
  rw [Path.resolve, if_pos h.isAbsolute, h.resolveParts, ← h.anchor]

end Path

end UberPackage
