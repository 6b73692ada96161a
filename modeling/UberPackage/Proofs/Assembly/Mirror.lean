/-
  The mirror of a library, place by place.

  A `Mirror` is a source directory on a disk, seen through the rules of copying from a target
  directory.  `Mirror.image?` says what the copy has at each place, `Mirror.weight` what an entry of
  the source counts, `Mirror.tally` what all entries of a region count together, and
  `Mirror.population` how many they are.

  A region is a place with all below it, or only what is below.  A region falls apart into those
  of the names in it (`Mirror.total_names`).
-/
import Mathlib.Algebra.BigOperators.Group.List.Basic
import Mathlib.Algebra.Order.BigOperators.Group.List
import Mathlib.Algebra.Order.Group.Nat
import UberPackage.Assembly
import UberPackage.Proofs.Disk.Locate
import UberPackage.Proofs.Redirection.Exact

namespace UberPackage

/-- A sum in which one term counts. -/
theorem sum_map_single {α M : Type} [DecidableEq α] [AddMonoid M] {as : List α} {a : α}
    (hd : as.Nodup) (ha : a ∈ as) {f : α → M} (h : ∀ b ∈ as, b ≠ a → f b = 0) :
    (as.map f).sum = f a := by
  rw [List.sum_map_eq_nsmul_single a f fun b hne hb => h b hb hne,
    List.count_eq_one_of_mem hd ha, one_nsmul]

namespace Counts

instance : Zero Counts := ⟨{}⟩

theorem ext {a b : Counts} (hr : a.redirected = b.redirected) (hc : a.copied = b.copied)
    (hs : a.skipped = b.skipped) : a = b := by
  cases a; cases b; cases hr; cases hc; cases hs; rfl

theorem add_redirected (a b : Counts) : (a + b).redirected = a.redirected + b.redirected := rfl

theorem add_copied (a b : Counts) : (a + b).copied = a.copied + b.copied := rfl

theorem add_skipped (a b : Counts) : (a + b).skipped = a.skipped + b.skipped := rfl

instance : AddCommMonoid Counts where
  add_assoc a b c := ext (Nat.add_assoc _ _ _) (Nat.add_assoc _ _ _) (Nat.add_assoc _ _ _)
  zero_add a := ext (Nat.zero_add _) (Nat.zero_add _) (Nat.zero_add _)
  add_zero a := ext (Nat.add_zero _) (Nat.add_zero _) (Nat.add_zero _)
  add_comm a b := ext (Nat.add_comm _ _) (Nat.add_comm _ _) (Nat.add_comm _ _)
  nsmul := nsmulRec

end Counts

namespace Disk

/-- The places of the entries at a place and below it, seen from there. -/
def below (d : Disk) (top : Place) : List Place :=
  (d.entries.map Prod.fst).filterMap fun q =>
    if top.isPrefixOf q then some (q.drop top.length) else none

theorem mem_below {d : Disk} {top y : Place} : y ∈ d.below top ↔
    top ++ y ∈ d.entries.map Prod.fst := by
  rw [below, List.mem_filterMap]
  constructor
  · rintro ⟨q, hq, h⟩
    split at h
    · next hp =>
      obtain ⟨z, rfl⟩ := List.isPrefixOf_iff_prefix.mp hp
      rw [List.drop_left, Option.some.injEq] at h
      exact h ▸ hq
    · exact absurd h (by simp)
  · intro h
    refine ⟨top ++ y, h, ?_⟩
    rw [if_pos (List.isPrefixOf_iff_prefix.mpr (List.prefix_append _ _)), List.drop_left]

theorem nodup_below {d : Disk} (h : d.Distinct) (top : Place) : (d.below top).Nodup := by
  refine h.filterMap fun q q' y hq hq' => ?_
  have hsplit :
      ∀ q : Place, (if top.isPrefixOf q then some (q.drop top.length) else none) = some y →
      q = top ++ y := by
    intro q hq
    split at hq
    · next hp =>
      obtain ⟨z, rfl⟩ := List.isPrefixOf_iff_prefix.mp hp
      rw [List.drop_left, Option.some.injEq] at hq
      rw [hq]
    · exact absurd hq (by simp)
  rw [hsplit q hq, hsplit q' hq']

theorem isSome_of_mem_below {d : Disk} {top y : Place} (h : y ∈ d.below top) :
    (d.entryAt? (top ++ y)).isSome = true := by
  by_cases hq : top ++ y = []
  · rw [hq, entryAt?_top]
    rfl
  · rw [entryAt?_of_ne hq]
    exact mem_keys_iff.mp (mem_below.mp h)

theorem mem_below_iff {d : Disk} {top y : Place} (h : top ++ y ≠ []) :
    y ∈ d.below top ↔ (d.entryAt? (top ++ y)).isSome = true := by
  rw [mem_below, mem_keys_iff, entryAt?_of_ne h]

end Disk

namespace Assembly

/-! ## What is kept -/

/-- A name is not copied: it is ignored, or a source of it stands in the same directory. -/
def Rules.drops (r : Rules) (d : Disk) (directory : Place) (name : Text) : Bool :=
  r.ignores name ||
    (Suffix.sourceCounterpart? name).any fun source => (d.entryAt? (directory ++ [source])).isSome

/-- No name on the way from a directory is dropped. -/
def Rules.keeps (r : Rules) (d : Disk) (directory : Place) : Place → Bool
  | [] => true
  | name :: y => !r.drops d directory name && r.keeps d (directory ++ [name]) y

theorem Rules.keeps_append (r : Rules) (d : Disk) (directory x y : Place) :
    r.keeps d directory (x ++ y) = (r.keeps d directory x && r.keeps d (directory ++ x) y) := by
  induction x generalizing directory with
  | nil => rw [List.nil_append, List.append_nil, keeps, Bool.true_and]
  | cons n x ih =>
    rw [List.cons_append, keeps, keeps, ih, Bool.and_assoc, List.append_assoc,
      List.singleton_append]

/-- The bytes of a source when its text is redirected for a directory. -/
def Rules.redirected? (r : Rules) (directory : Path) (bytes : Bytes) : Option Bytes := do
  let cs ← Utf8.decode? bytes
  let t ← (r.layout.redirect r.strict (Text.ofChars cs) directory Layout.noFile).2.toOption
  Utf8.encode? t

/-- A source directory, the directory it is copied to, and how. -/
structure Mirror where
  rules : Rules
  disk : Disk
  source : Path
  target : Path

namespace Mirror

variable (m : Mirror)

/-- The place of the source directory. -/
def top : Place := m.disk.placeOf m.source

/-- The place of the target directory. -/
def goal : Place := m.disk.placeOf m.target

/-- What the source has at a place. -/
def original? (y : Place) : Option Entry := m.disk.entryAt? (m.top ++ y)

/-- Nothing on the way to a place is dropped. -/
def keeps (y : Place) : Bool := m.rules.keeps m.disk m.top y

/-- The name at the end of a place. -/
def nameOf (y : Place) : Text := y.getLast?.getD []

/-- What the copy has at a place: directories, sources redirected for the directory that they are
in, and all other files as they are. -/
def image? (y : Place) : Option Entry :=
  if m.keeps y then
    match m.original? y with
    | some (.file bytes) =>
      if Suffix.isSource (nameOf y) then
        (m.rules.redirected? (m.target.down y.dropLast) bytes).map .file
      else some (.file bytes)
    | e => e
  else none

/-- What an entry of the source counts. -/
def weight (y : Place) : Counts :=
  if m.keeps y then
    match m.original? y with
    | some (.file _) => if Suffix.isSource (nameOf y) then { redirected := 1 } else { copied := 1 }
    | _ => {}
  else if m.keeps y.dropLast then { skipped := 1 } else {}

/-- The sources at a place can be redirected. -/
def Defined (y : Place) : Prop := (m.image? y).isSome = (m.keeps y && (m.original? y).isSome)

theorem keeps_nil : m.keeps [] = true := rfl

theorem keeps_concat (x : Place) (n : Text) :
    m.keeps (x ++ [n]) = (m.keeps x && !m.rules.drops m.disk (m.top ++ x) n) := by
  rw [keeps, Rules.keeps_append, Rules.keeps, Rules.keeps, Bool.and_true]
  rfl

theorem keeps_of_prefix {x y : Place} (h : x <+: y) (hy : m.keeps y = true) : m.keeps x = true := by
  obtain ⟨z, rfl⟩ := h
  rw [keeps, Rules.keeps_append, Bool.and_eq_true] at hy
  exact hy.1

theorem nameOf_concat (x : Place) (n : Text) : nameOf (x ++ [n]) = n := by
  rw [nameOf, List.getLast?_concat]
  rfl

theorem image?_of_not_keeps {y : Place} (h : m.keeps y = false) :
    m.image? y = none ∧ m.Defined y := by
  have hi : m.image? y = none := by
    rw [image?, h]
    rfl
  exact ⟨hi, by rw [Defined, hi, h]; rfl⟩

theorem image?_of_none {y : Place} (h : m.original? y = none) :
    m.image? y = none ∧ m.Defined y := by
  have hi : m.image? y = none := by
    rw [image?, h]
    split <;> rfl
  exact ⟨hi, by rw [Defined, hi, h, Option.isSome_none, Bool.and_false]⟩

theorem image?_of_dir {y : Place} (hk : m.keeps y = true) (h : m.original? y = some .dir) :
    m.image? y = some .dir ∧ m.Defined y := by
  have hi : m.image? y = some .dir := by
    rw [image?, if_pos hk, h]
  exact ⟨hi, by rw [Defined, hi, h, hk]; rfl⟩

theorem image?_of_source {x : Place} {n : Text} {bytes out : Bytes}
    (hk : m.keeps (x ++ [n]) = true) (h : m.original? (x ++ [n]) = some (.file bytes))
    (hn : Suffix.isSource n = true) (ho : m.rules.redirected? (m.target.down x) bytes = some out) :
    m.image? (x ++ [n]) = some (.file out) ∧ m.Defined (x ++ [n]) := by
  have hi : m.image? (x ++ [n]) = some (.file out) := by
    rw [image?, if_pos hk, h]
    dsimp only
    rw [nameOf_concat, if_pos hn, List.dropLast_concat, ho]
    rfl
  exact ⟨hi, by rw [Defined, hi, h, hk]; rfl⟩

theorem image?_of_other {x : Place} {n : Text} {bytes : Bytes}
    (hk : m.keeps (x ++ [n]) = true) (h : m.original? (x ++ [n]) = some (.file bytes))
    (hn : Suffix.isSource n = false) :
    m.image? (x ++ [n]) = some (.file bytes) ∧ m.Defined (x ++ [n]) := by
  have hi : m.image? (x ++ [n]) = some (.file bytes) := by
    rw [image?, if_pos hk, h]
    dsimp only
    rw [nameOf_concat, hn]
    rfl
  exact ⟨hi, by rw [Defined, hi, h, hk]; rfl⟩

end Mirror

/-! ## Regions -/

/-- A place with all below it, or only what is below. -/
structure Region where
  place : Place
  inner : Bool
deriving DecidableEq

namespace Region

/-- The place is in the region. -/
def Covers (g : Region) (y : Place) : Prop := g.place <+: y ∧ (g.inner = true → y ≠ g.place)

instance (g : Region) (y : Place) : Decidable (g.Covers y) := inferInstanceAs (Decidable (_ ∧ _))

/-- Nothing is in both regions. -/
def Apart (g h : Region) : Prop := ∀ y, ¬ (g.Covers y ∧ h.Covers y)

theorem covers_self (x : Place) : Covers ⟨x, false⟩ x :=
  ⟨List.prefix_refl _, fun h => absurd h (by simp)⟩

/-- What is below a place in a region is in the region. -/
theorem Covers.below {g : Region} {x y : Place} (h : g.Covers x) (hxy : x <+: y) : g.Covers y := by
  refine ⟨h.1.trans hxy, fun hi hy => h.2 hi ?_⟩
  subst hy
  exact hxy.eq_of_length (Nat.le_antisymm hxy.length_le h.1.length_le)

theorem covers_child {x y : Place} {n : Text} :
    Covers ⟨x ++ [n], false⟩ y ↔ ∃ z, y = x ++ n :: z := by
  constructor
  · rintro ⟨⟨z, rfl⟩, -⟩
    exact ⟨z, by rw [List.append_assoc]; rfl⟩
  · rintro ⟨z, rfl⟩
    exact ⟨⟨z, by rw [List.append_assoc]; rfl⟩, fun h => absurd h (by simp)⟩

theorem covers_inner {x y : Place} : Covers ⟨x, true⟩ y ↔ ∃ n z, y = x ++ n :: z := by
  constructor
  · rintro ⟨⟨z, rfl⟩, hne⟩
    cases z with
    | nil => exact absurd (List.append_nil x) (hne rfl)
    | cons n z => exact ⟨n, z, rfl⟩
  · rintro ⟨n, z, rfl⟩
    exact ⟨⟨_, rfl⟩, fun _ he => absurd he (by simp)⟩

theorem covers_inner_iff {x y : Place} : Covers ⟨x, true⟩ y ↔ Covers ⟨x, false⟩ y ∧ y ≠ x :=
  ⟨fun h => ⟨⟨h.1, fun h => absurd h (by simp)⟩, h.2 rfl⟩, fun h => ⟨h.1.1, fun _ => h.2⟩⟩

theorem covers_inner_of_ne {x y : Place} (h : y ≠ x) : Covers ⟨x, true⟩ y ↔ Covers ⟨x, false⟩ y :=
  covers_inner_iff.trans (and_iff_left h)

theorem apart_children {x : Place} {n k : Text} (h : n ≠ k) :
    Apart ⟨x ++ [n], false⟩ ⟨x ++ [k], false⟩ := by
  rintro y ⟨hn, hk⟩
  obtain ⟨z, rfl⟩ := covers_child.mp hn
  obtain ⟨z', he⟩ := covers_child.mp hk
  exact h (List.cons.inj (List.append_cancel_left he)).1

end Region

namespace Mirror

variable (m : Mirror)

/-- What the entries of a region have together. -/
def total {M : Type} [AddCommMonoid M] (f : Place → M) (g : Region) : M :=
  ((m.disk.below m.top).map fun y => if g.Covers y then f y else 0).sum

/-- What the entries of a region count. -/
def tally (g : Region) : Counts :=
  ((m.disk.below m.top).map fun y => if g.Covers y then m.weight y else 0).sum

theorem tally_congr {g h : Region}
    (hgh : ∀ y, (if g.Covers y then m.weight y else 0) = if h.Covers y then m.weight y else 0) :
    m.tally g = m.tally h := by
  rw [tally, tally]
  exact congrArg List.sum (List.map_congr_left fun y _ => hgh y)

/-- One entry counts for the region. -/
theorem tally_single (hd : m.disk.Distinct) {g : Region} {y : Place} (hg : g.Covers y)
    (hne : y ≠ []) (hy : (m.original? y).isSome = true)
    (hrest : ∀ z, (m.original? z).isSome = true → g.Covers z → z ≠ y → m.weight z = 0) :
    m.tally g = m.weight y := by
  have hmem : y ∈ m.disk.below m.top :=
    (Disk.mem_below_iff (List.append_ne_nil_of_right_ne_nil _ hne)).mpr hy
  rw [tally, sum_map_single (Disk.nodup_below hd _) hmem, if_pos hg]
  intro z hz hzy
  split
  · next hc => exact hrest z (Disk.isSome_of_mem_below hz) hc hzy
  · rfl

/-- A region falls apart into those of the names in it. -/
theorem total_names {M : Type} [AddCommMonoid M] (f : Place → M)
    (ht : m.disk.IsTree m.top) (x : Place) {names : List Text} (hn : names.Nodup)
    (hmem : ∀ n, n ∈ names ↔ (m.original? (x ++ [n])).isSome = true) :
    m.total f ⟨x, true⟩ = (names.map fun n => m.total f ⟨x ++ [n], false⟩).sum := by
  -- one sum over names for each place
  have hexchange : ∀ es : List Place,
      (names.map fun n => (es.map fun y =>
        if (Region.mk (x ++ [n]) false).Covers y then f y else 0).sum).sum =
      (es.map fun y => (names.map fun n =>
        if (Region.mk (x ++ [n]) false).Covers y then f y else 0).sum).sum := by
    intro es
    induction es with
    | nil => simp
    | cons y es ih =>
      simp only [List.map_cons, List.sum_cons]
      rw [List.sum_map_add, ih]
  show _ = (names.map fun n => (List.map _ _).sum).sum
  rw [hexchange, total]
  refine congrArg List.sum (List.map_congr_left fun y hy => ?_)
  by_cases hc : (Region.mk x true).Covers y
  · rw [if_pos hc]
    obtain ⟨n, z, rfl⟩ := Region.covers_inner.mp hc
    have hin : n ∈ names := by
      rw [hmem]
      have he := Disk.isSome_of_mem_below hy
      cases z with
      | nil => exact he
      | cons k z =>
        rw [original?, ht.dir_of_prefix (x := x ++ [n]) (List.cons_ne_nil k z)
          (by rwa [List.append_assoc])]
        rfl
    rw [sum_map_single hn hin, if_pos (Region.covers_child.mpr ⟨z, rfl⟩)]
    intro k _ hk
    rw [if_neg]
    exact fun hc => Region.apart_children hk _ ⟨hc, Region.covers_child.mpr ⟨z, rfl⟩⟩
  · rw [if_neg hc]
    refine (List.sum_eq_zero ?_).symm
    intro c hcm
    obtain ⟨n, -, rfl⟩ := List.mem_map.mp hcm
    rw [if_neg]
    exact fun h => hc (Region.covers_inner.mpr ⟨n, Region.covers_child.mp h⟩)

theorem tally_names (ht : m.disk.IsTree m.top) (x : Place) {names : List Text} (hn : names.Nodup)
    (hmem : ∀ n, n ∈ names ↔ (m.original? (x ++ [n])).isSome = true) :
    m.tally ⟨x, true⟩ = (names.map fun n => m.tally ⟨x ++ [n], false⟩).sum :=
  m.total_names m.weight ht x hn hmem

/-- How many entries a region has. -/
def population (g : Region) : Nat := m.total (fun _ => 1) g

/-- A region has no more entries than the source. -/
theorem population_le (g : Region) : m.population g ≤ (m.disk.below m.top).length := by
  rw [population, total]
  refine (List.sum_le_card_nsmul _ 1 fun k hk => ?_).trans_eq ?_
  · obtain ⟨y, -, rfl⟩ := List.mem_map.mp hk
    split <;> omega
  · exact (Nat.mul_one _).trans (List.length_map _)

/-- An entry comes on top of all that is below it. -/
theorem population_place (hd : m.disk.Distinct) {y : Place} (hne : y ≠ [])
    (hy : (m.original? y).isSome = true) :
    m.population ⟨y, false⟩ = m.population ⟨y, true⟩ + 1 := by
  have hmem : y ∈ m.disk.below m.top :=
    (Disk.mem_below_iff (List.append_ne_nil_of_right_ne_nil _ hne)).mpr hy
  have hone : ((m.disk.below m.top).map fun z => if z = y then 1 else 0).sum = 1 := by
    rw [sum_map_single (Disk.nodup_below hd _) hmem fun z _ hz => if_neg hz, if_pos rfl]
  rw [← congrArg (m.population ⟨y, true⟩ + ·) hone, population, population, total, total,
    ← List.sum_map_add]
  refine congrArg List.sum (List.map_congr_left fun z _ => ?_)
  by_cases hz : z = y
  · rw [hz, if_pos (Region.covers_self y), if_neg fun hc => hc.2 rfl rfl, if_pos rfl]
  · rw [if_neg hz, add_zero, if_congr (Region.covers_inner_of_ne hz) rfl rfl]

/-! ## What a single name counts -/

variable {m}

theorem weight_of_not_keeps {y : Place} (h : m.keeps y.dropLast = false) : m.weight y = 0 := by
  have hy : m.keeps y = false := by
    cases hk : m.keeps y with
    | false => rfl
    | true => rw [m.keeps_of_prefix (List.dropLast_prefix y) hk] at h; exact absurd h (by simp)
  rw [weight, hy, h]
  rfl

/-- A dropped name is skipped with all below it. -/
theorem tally_dropped (hd : m.disk.Distinct) {x : Place} {n : Text} (hx : m.keeps x = true)
    (hn : m.keeps (x ++ [n]) = false) (he : (m.original? (x ++ [n])).isSome = true) :
    m.tally ⟨x ++ [n], false⟩ = { skipped := 1 } := by
  rw [m.tally_single hd (Region.covers_self _) (by simp) he fun z _ hz hne => ?_]
  · rw [weight, hn, List.dropLast_concat, hx]
    rfl
  · obtain ⟨w, rfl⟩ := hz.1
    refine weight_of_not_keeps ?_
    cases hk : m.keeps (x ++ [n] ++ w).dropLast with
    | false => rfl
    | true =>
      have hw : w ≠ [] := fun h => hne (by rw [h, List.append_nil])
      rw [List.dropLast_append_of_ne_nil hw] at hk
      rw [m.keeps_of_prefix (List.prefix_append _ _) hk] at hn
      exact absurd hn (by simp)

/-- A file counts alone. -/
theorem tally_file (hd : m.disk.Distinct) (ht : m.disk.IsTree m.top) {x : Place} {n : Text}
    (hk : m.keeps (x ++ [n]) = true) {bytes : Bytes}
    (he : m.original? (x ++ [n]) = some (.file bytes)) :
    m.tally ⟨x ++ [n], false⟩ =
      if Suffix.isSource n then { redirected := 1 } else { copied := 1 } := by
  rw [m.tally_single hd (Region.covers_self _) (by simp) (by rw [he]; rfl) fun z hz hc hne => ?_]
  · rw [weight, if_pos hk, he]
    dsimp only
    rw [nameOf_concat]
  · -- nothing stands below a file
    obtain ⟨w, rfl⟩ := hc.1
    have hw : w ≠ [] := fun h => hne (by rw [h, List.append_nil])
    have hdir := ht.dir_of_prefix hw hz
    rw [← original?, he] at hdir
    exact absurd hdir (by simp)

end Mirror

end Assembly

end UberPackage
