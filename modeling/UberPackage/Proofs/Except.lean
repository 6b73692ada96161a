/-
  Computations that may fail, taken apart.

  `except_bind_eq_ok` turns a successful sequence into its successful parts; the lemmas on
  `mapM` and `foldlM` do the same along a list.  `exists_forall₂_iff` makes a list beside another.
-/
import Mathlib.Data.List.Forall2

namespace UberPackage

variable {ε α β : Type}

theorem except_ok_bind (a : α) (f : α → Except ε β) : (Except.ok a >>= f) = f a := rfl

theorem except_bind_eq_ok {x : Except ε α} {f : α → Except ε β} {b : β} :
    x >>= f = .ok b ↔ ∃ a, x = .ok a ∧ f a = .ok b := by
  cases x with
  | error e => simp [bind, Except.bind]
  | ok a => simp [bind, Except.bind]

theorem except_bind_eq_error {x : Except ε α} {f : α → Except ε β} {e : ε} :
    x >>= f = .error e ↔ x = .error e ∨ ∃ a, x = .ok a ∧ f a = .error e := by
  cases x with
  | error e' => simp [bind, Except.bind]
  | ok a => simp [bind, Except.bind]

theorem except_map_eq_ok {x : Except ε α} {f : α → β} {b : β} :
    f <$> x = .ok b ↔ ∃ a, x = .ok a ∧ f a = b := by
  cases x with
  | error e => simp [Functor.map, Except.map]
  | ok a => simp [Functor.map, Except.map]

/-! ## Along a list -/

theorem exists_forall₂_iff {R : α → β → Prop} {l : List α} :
    (∃ l', List.Forall₂ R l l') ↔ ∀ a ∈ l, ∃ b, R a b := by
  induction l with
  | nil => exact ⟨fun _ a ha => absurd ha List.not_mem_nil, fun _ => ⟨[], .nil⟩⟩
  | cons a l ih =>
    rw [List.forall_mem_cons, ← ih]
    constructor
    · rintro ⟨_, _ | ⟨hb, hl⟩⟩
      exact ⟨⟨_, hb⟩, _, hl⟩
    · rintro ⟨⟨b, hb⟩, l', hl⟩
      exact ⟨b :: l', .cons hb hl⟩

theorem exists_of_forall₂ {R : α → β → Prop} {l : List α} {l' : List β} (h : List.Forall₂ R l l')
    {b : β} (hb : b ∈ l') : ∃ a ∈ l, R a b := by
  induction h with
  | nil => cases hb
  | cons hab _ ih =>
    rcases List.mem_cons.mp hb with rfl | hb
    · exact ⟨_, List.mem_cons_self, hab⟩
    · obtain ⟨a, ha, hab⟩ := ih hb
      exact ⟨a, List.mem_cons_of_mem _ ha, hab⟩

/-- The result, unless there is a fault. -/
def unlessFault (fault : Option ε) (result : β) : Except ε β :=
  match fault with
  | some e => .error e
  | none => .ok result

/-- Where each step has a fault or a result, a list of them has its first fault or all results. -/
theorem mapM_eq_of_fault {f : α → Except ε β} {p : α → Option ε} {g : α → β}
    (h : ∀ a, f a = unlessFault (p a) (g a)) (l : List α) :
    l.mapM f = unlessFault (l.findSome? p) (l.map g) := by
  induction l with
  | nil => rfl
  | cons a l ih =>
    rw [List.mapM_cons, h a, List.findSome?_cons]
    cases p a with
    | some e => rfl
    | none =>
      rw [unlessFault, except_ok_bind, ih]
      dsimp only
      cases l.findSome? p <;> rfl

/-- A list of steps that succeed with what `p` gives succeeds with a list of these. -/
theorem mapM_ok_iff {f : α → Except ε β} {p : α → Option β} (h : ∀ a b, f a = .ok b ↔ p a = some b)
    (l : List α) (bs : List β) : l.mapM f = .ok bs ↔ l.map p = bs.map some := by
  induction l generalizing bs with
  | nil =>
    rw [List.map_nil, List.nil_eq, List.map_eq_nil_iff]
    exact ⟨fun hb => (Except.ok.inj hb).symm, fun hb => congrArg Except.ok hb.symm⟩
  | cons a l ih =>
    rw [List.mapM_cons, except_bind_eq_ok, List.map_cons]
    constructor
    · rintro ⟨b, hb, hbs⟩
      obtain ⟨rest, hrest, hbs⟩ := except_bind_eq_ok.mp hbs
      rw [← Except.ok.inj hbs, List.map_cons, (h a b).mp hb, (ih rest).mp hrest]
    · intro hbs
      obtain ⟨b, rest, rfl, hb, hrest⟩ := List.map_eq_cons_iff.mp hbs.symm
      exact ⟨b, (h a b).mpr hb.symm, except_bind_eq_ok.mpr ⟨rest, (ih rest).mpr hrest.symm, rfl⟩⟩

/-- The results of steps that succeed, one by one. -/
theorem forall₂_of_mapM {f : α → Except ε β} {l : List α} {bs : List β} (h : l.mapM f = .ok bs) :
    List.Forall₂ (fun a b => f a = .ok b) l bs := by
  induction l generalizing bs with
  | nil =>
    rw [← Except.ok.inj h]
    exact .nil
  | cons a l ih =>
    rw [List.mapM_cons, except_bind_eq_ok] at h
    obtain ⟨b, hb, h⟩ := h
    obtain ⟨rest, hrest, h⟩ := except_bind_eq_ok.mp h
    rw [← Except.ok.inj h]
    exact .cons hb (ih hrest)

/-- A list of steps fails at one of them. -/
theorem mapM_error {f : α → Except ε β} {l : List α} {e : ε} (h : l.mapM f = .error e) :
    ∃ a ∈ l, f a = .error e := by
  induction l with
  | nil => cases h
  | cons a l ih =>
    rw [List.mapM_cons, except_bind_eq_error] at h
    rcases h with h | ⟨b, -, h⟩
    · exact ⟨a, List.mem_cons_self, h⟩
    · rcases except_bind_eq_error.mp h with h | ⟨_, -, h⟩
      · obtain ⟨a', hm, ha'⟩ := ih h
        exact ⟨a', List.mem_cons_of_mem _ hm, ha'⟩
      · cases h

/-- What every step of a successful fold keeps, the fold keeps. -/
theorem foldlM_ok_inv {P : β → Prop} {f : β → α → Except ε β} {l : List α}
    (step : ∀ a ∈ l, ∀ b b', P b → f b a = .ok b' → P b') {b b' : β} (hb : P b)
    (h : l.foldlM f b = .ok b') : P b' := by
  induction l generalizing b with
  | nil =>
    rw [← Except.ok.inj h]
    exact hb
  | cons a l ih =>
    rw [List.foldlM_cons, except_bind_eq_ok] at h
    obtain ⟨b₁, ha, h⟩ := h
    exact ih (fun a' hm => step a' (List.mem_cons_of_mem _ hm))
      (step a List.mem_cons_self b b₁ hb ha) h

/-- A successful fold, up to one element, that one, and the others. -/
theorem foldlM_ok_split {f : β → α → Except ε β} {as bs : List α} {a : α} {b b' : β}
    (h : (as ++ a :: bs).foldlM f b = .ok b') :
    ∃ b₁ b₂, as.foldlM f b = .ok b₁ ∧ f b₁ a = .ok b₂ ∧ bs.foldlM f b₂ = .ok b' := by
  rw [List.foldlM_append, except_bind_eq_ok] at h
  obtain ⟨b₁, has, h⟩ := h
  rw [List.foldlM_cons, except_bind_eq_ok] at h
  obtain ⟨b₂, ha, hbs⟩ := h
  exact ⟨b₁, b₂, has, ha, hbs⟩

/-- A fold fails at one of its steps, where all that its successful steps keep still holds. -/
theorem foldlM_error_inv {P : β → Prop} {f : β → α → Except ε β} {l : List α}
    (step : ∀ a ∈ l, ∀ b b', P b → f b a = .ok b' → P b') {b : β} (hb : P b) {e : ε}
    (h : l.foldlM f b = .error e) : ∃ a ∈ l, ∃ b', P b' ∧ f b' a = .error e := by
  induction l generalizing b with
  | nil => cases h
  | cons a l ih =>
    rw [List.foldlM_cons] at h
    cases ha : f b a with
    | error e' =>
      rw [ha] at h
      exact ⟨a, List.mem_cons_self, b, hb, ha.trans h⟩
    | ok b' =>
      rw [ha, except_ok_bind] at h
      have hb' := step a List.mem_cons_self b b' hb ha
      obtain ⟨a', hm, b'', hkept, hfails⟩ :=
        ih (fun a' hm => step a' (List.mem_cons_of_mem _ hm)) hb' h
      exact ⟨a', List.mem_cons_of_mem _ hm, b'', hkept, hfails⟩

/-- A fold fails at one of its steps. -/
theorem foldlM_error {f : β → α → Except ε β} {l : List α} {b : β} {e : ε}
    (h : l.foldlM f b = .error e) : ∃ a ∈ l, ∃ b', f b' a = .error e := by
  obtain ⟨a, hm, b', -, hfails⟩ :=
    foldlM_error_inv (P := fun _ => True) (fun _ _ _ _ _ _ => trivial) trivial h
  exact ⟨a, hm, b', hfails⟩

end UberPackage
