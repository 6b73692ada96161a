/-
  How long paths are.

  The bytes of the text of a path are those of its parts and of the slashes between them
  (`Path.size_eq`).  A path that is no longer than one that file systems take is taken as well
  (`Path.nameFault?_of_size_le`); so is each path on the way down to it.
-/
import Mathlib.Algebra.BigOperators.Group.List.Basic
import Mathlib.Algebra.GroupWithZero.Nat
import UberPackage.Proofs.Disk.Locate

namespace UberPackage

/-! ## Texts -/

namespace Text

/-- The bytes that a text takes as a name. -/
def size (t : Text) : Nat := (t.nameSize?).getD 0

/-- The bytes of a name, unit by unit. -/
theorem nameSize?_getD_append {a b : Text} (ha : a.nameSize?.isSome = true)
    (hb : b.nameSize?.isSome = true) :
    ((a ++ b).nameSize?).getD 0 = (a.nameSize?).getD 0 + (b.nameSize?).getD 0 := by
  obtain ⟨k, hk⟩ := Option.isSome_iff_exists.mp hb
  induction a with
  | nil => simp [nameSize?]
  | cons c a ih =>
    have hunits := isSome_nameSize?.mp ha
    obtain ⟨i, hi⟩ := Option.isSome_iff_exists.mp (hunits c List.mem_cons_self)
    have hrest : (nameSize? a).isSome = true :=
      isSome_nameSize?.mpr fun x hx => hunits x (List.mem_cons_of_mem _ hx)
    have hboth : (nameSize? (a ++ b)).isSome = true := isSome_nameSize?.mpr fun x hx => by
      rcases List.mem_append.mp hx with hx | hx
      · exact hunits x (List.mem_cons_of_mem _ hx)
      · exact isSome_nameSize?.mp hb x hx
    obtain ⟨j, hj⟩ := Option.isSome_iff_exists.mp hrest
    obtain ⟨l, hl⟩ := Option.isSome_iff_exists.mp hboth
    have ih := ih hrest
    rw [hj, hl, hk] at ih
    rw [List.cons_append, nameSize?, nameSize?, hi, hj, hl, hk]
    simp only [Option.getD_some] at ih
    show i + l = i + j + k
    rw [ih, Nat.add_assoc]

/-- The units of the text can stand in names. -/
def HasNameUnits (t : Text) : Prop := ∀ c ∈ t, c.IsNameUnit

theorem HasNameUnits.isSome {t : Text} (h : t.HasNameUnits) : t.nameSize?.isSome = true :=
  isSome_nameSize?.mpr fun c hc => (h c hc).1

theorem size_append {a b : Text} (ha : a.HasNameUnits) (hb : b.HasNameUnits) :
    (a ++ b).size = a.size + b.size :=
  nameSize?_getD_append ha.isSome hb.isSome

theorem hasNameUnits_append {a b : Text} :
    HasNameUnits (a ++ b) ↔ a.HasNameUnits ∧ b.HasNameUnits :=
  List.forall_mem_append

theorem hasNameUnits_join {ts : List Text} (h : ∀ t ∈ ts, t.HasNameUnits) :
    (join "/" ts).HasNameUnits := by
  intro c hc
  rcases mem_join hc with hc | ⟨t, ht, hc⟩
  · rw [List.mem_singleton.mp hc]
    exact ⟨by decide, by decide⟩
  · exact h t ht c hc

theorem size_join {ts : List Text} (h : ∀ t ∈ ts, t.HasNameUnits) :
    (join "/" ts).size = (ts.map size).sum + (ts.length - 1) := by
  induction ts with
  | nil => rfl
  | cons t ts ih =>
    cases ts with
    | nil =>
      rw [join, List.intercalate_singleton]
      rfl
    | cons u ts =>
      have ht := h t List.mem_cons_self
      have hrest : ∀ v ∈ u :: ts, v.HasNameUnits := fun v hv => h v (List.mem_cons_of_mem _ hv)
      have hslash : HasNameUnits (↑"/" : Text) := fun c hc => by
        rw [List.mem_singleton.mp hc]
        exact ⟨by decide, by decide⟩
      have hsplit : join "/" (t :: u :: ts) = t ++ ↑"/" ++ join "/" (u :: ts) := by
        rw [join, List.intercalate_cons_cons, join]
      rw [hsplit, size_append (hasNameUnits_append.mpr ⟨ht, hslash⟩) (hasNameUnits_join hrest),
        size_append ht hslash, ih hrest]
      have hone : size (↑"/" : Text) = 1 := rfl
      simp only [List.map_cons, List.sum_cons, List.length_cons, hone]
      omega

end Text

/-! ## Paths -/

namespace Path

/-- The bytes of the text of a path. -/
def size (p : Path) : Nat := p.text.size

theorem size_eq {p : Path} (ha : p.anchor = .slash) (hu : p.HasNameUnits) :
    p.size = 1 + ((p.parts.map Text.size).sum + (p.parts.length - 1)) := by
  obtain ⟨a, parts⟩ := p
  obtain rfl : a = .slash := ha
  have hslash : Text.HasNameUnits (↑"/" : Text) := fun c hc => by
    rw [List.mem_singleton.mp hc]
    exact ⟨by decide, by decide⟩
  have htext : text ⟨.slash, parts⟩ = ↑"/" ++ Text.join "/" parts := rfl
  rw [size, htext, Text.size_append hslash (Text.hasNameUnits_join hu), Text.size_join hu]
  rfl

/-- What a file system takes as a path. -/
theorem nameFault?_eq_none_iff {p : Path} : p.nameFault? = none ↔
    p.HasNameUnits ∧ p.size < 4096 := by
  constructor
  · intro h
    refine ⟨hasNameUnits_of_nameFault? h, ?_⟩
    rw [nameFault?] at h
    split at h
    · cases h
    · next size hsize =>
      split at h
      · cases h
      · split at h
        · cases h
        · next hlt =>
          rw [Path.size, Text.size, hsize]
          exact Nat.lt_of_not_le hlt
  · rintro ⟨hunits, hsize⟩
    rcases nameFault?_of_hasNameUnits hunits with h | h
    · exact h
    · rw [nameFault?] at h
      split at h
      · cases h
      · next size hs =>
        split at h
        · cases h
        · split at h
          · next hle =>
            rw [Path.size, Text.size, hs] at hsize
            exact absurd hle (Nat.not_le_of_lt hsize)
          · cases h

theorem nameFault?_of_size_le {p q : Path} (hq : q.HasNameUnits) (hle : q.size ≤ p.size)
    (hp : p.nameFault? = none) : q.nameFault? = none :=
  nameFault?_eq_none_iff.mpr ⟨hq, Nat.lt_of_le_of_lt hle (nameFault?_eq_none_iff.mp hp).2⟩

/-- A path on the way down to one that a file system takes, ended by a shorter name. -/
theorem nameFault?_of_prefix_concat {p q : Path} (hp : p.anchor = .slash) (hq : q.anchor = .slash)
    (hbegins : q.parts <+: p.parts) {m n : Text} (hm : m.HasNameUnits) (hle : m.size ≤ n.size)
    (h : (p.down [n]).nameFault? = none) : (q.down [m]).nameFault? = none := by
  have hunits := (nameFault?_eq_none_iff.mp h).1
  have hqunits : (q.down [m]).HasNameUnits := by
    intro part hpart
    rcases List.mem_append.mp hpart with hpart | hpart
    · exact hunits part (List.mem_append_left _ (hbegins.subset hpart))
    · rw [List.mem_singleton.mp hpart]
      exact hm
  refine nameFault?_of_size_le hqunits ?_ h
  obtain ⟨rest, hrest⟩ := hbegins
  rw [size_eq (show (q.down [m]).anchor = .slash from hq) hqunits,
    size_eq (show (p.down [n]).anchor = .slash from hp) hunits]
  simp only [down, ← hrest, List.map_append, List.sum_append, List.length_append, List.map_cons,
    List.map_nil, List.sum_cons, List.sum_nil, List.length_cons, List.length_nil]
  omega

/-- A path on the way down to one that a file system takes. -/
theorem nameFault?_of_prefix {p q : Path} (hp : p.anchor = .slash) (hq : q.anchor = .slash)
    (hbegins : q.parts <+: p.parts) (h : p.nameFault? = none) : q.nameFault? = none := by
  have hunits := (nameFault?_eq_none_iff.mp h).1
  have hqunits : q.HasNameUnits := fun part hpart => hunits part (hbegins.subset hpart)
  refine nameFault?_of_size_le hqunits ?_ h
  obtain ⟨rest, hrest⟩ := hbegins
  rw [size_eq hq hqunits, size_eq hp hunits, ← hrest, List.map_append, List.sum_append,
    List.length_append]
  omega

end Path

end UberPackage
