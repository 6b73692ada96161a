/-
  What becomes of a file when generated files are skipped.

  A name is shadowed when its source counterpart stands beside it (`Mirror.Shadowed`).  Copying
  looks at names only: a directory is shadowed as a file is, the counterpart may be a directory,
  and it may be shadowed or ignored itself.  Nothing shadowed is copied, nor anything below it
  (`Mirror.keeps_iff`).

  A file is saved by its copy, or by the copy of the source that it was generated from
  (`Mirror.Saved`).  Which files are saved is told by the source directory alone
  (`Mirror.saved_iff`).  It is not all of them: a directory named `x.js` beside an `x.ts` takes
  the files in it along (`Mirror.runs_loses`).
-/
import UberPackage.Proofs.Assembly.Copy

namespace UberPackage

namespace Suffix

/-- The name is that of a file that is generated from a source. -/
def IsGenerated (n : Text) : Prop := ∃ ending ∈ generatedEndings, ending <:+ n

end Suffix

namespace Assembly

namespace Mirror

/-! ## Shadowed names -/

/-- In a directory of the source, the counterpart of a name stands beside it, whatever it is. -/
def Shadowed (m : Mirror) (x : Place) (n : Text) : Prop :=
  ∃ s, Suffix.sourceCounterpart? n = some s ∧ (m.original? (x ++ [s])).isSome = true

variable {m : Mirror} {x : Place} {n : Text}

theorem drops_iff :
    m.rules.drops m.disk (m.top ++ x) n = true ↔ m.rules.ignores n = true ∨ m.Shadowed x n := by
  rw [Rules.drops, Bool.or_eq_true, Option.any_eq_true]
  simp only [Shadowed, original?, List.append_assoc]

theorem keeps_concat_iff :
    m.keeps (x ++ [n]) = true ↔ m.keeps x = true ∧ m.rules.ignores n = false ∧
    ¬ m.Shadowed x n := by
  rw [keeps_concat, Bool.and_eq_true, Bool.not_eq_true', ← Bool.not_eq_true, drops_iff, not_or,
    Bool.not_eq_true]

/-- A place is kept if no name on the way to it is ignored or shadowed. -/
theorem keeps_iff : m.keeps x = true ↔
    (∀ k ∈ x, m.rules.ignores k = false) ∧ ∀ y k, y ++ [k] <+: x → ¬ m.Shadowed y k := by
  induction x using List.reverseRecOn with
  | nil =>
    refine iff_of_true m.keeps_nil ⟨fun _ hk => absurd hk List.not_mem_nil, fun y k h => ?_⟩
    exact absurd (List.prefix_nil.mp h)
      (List.append_ne_nil_of_right_ne_nil _ (List.cons_ne_nil _ _))
  | append_singleton x n ih =>
    rw [keeps_concat_iff, ih]
    constructor
    · rintro ⟨⟨hnames, hfree⟩, hn, hx⟩
      refine ⟨fun k hk => ?_, fun y k h => ?_⟩
      · rcases List.mem_append.mp hk with hk | hk
        · exact hnames k hk
        · rwa [List.mem_singleton.mp hk]
      · rcases List.prefix_concat_iff.mp h with he | h
        · obtain ⟨rfl, hk⟩ := List.append_inj' he rfl
          obtain rfl : k = n := List.head_eq_of_cons_eq hk
          exact hx
        · exact hfree y k h
    · rintro ⟨hnames, hfree⟩
      refine ⟨⟨fun k hk => hnames k (List.mem_append_left _ hk), fun y k h => ?_⟩, ?_, ?_⟩
      · exact hfree y k (h.trans (List.prefix_append _ _))
      · exact hnames n (List.mem_append_right _ (List.mem_singleton_self n))
      · exact hfree x n (List.prefix_refl _)

/-! ## Saved files -/

/-- The copy has the file, or it has the source file that the file is generated from, as its name
says. -/
def Saved (m : Mirror) (d : Disk) (x : Place) (n : Text) : Prop :=
  (d.entryAt? (m.goal ++ (x ++ [n]))).any Entry.isFile = true ∨
    Suffix.IsGenerated n ∧ ∃ s, Suffix.sourceCounterpart? n = some s ∧
      (d.entryAt? (m.goal ++ (x ++ [s]))).any Entry.isFile = true

/-- The source that shadows a file is a file too, and is copied. -/
structure Replaced (m : Mirror) (x : Place) (n s : Text) : Prop where
  counterpart : Suffix.sourceCounterpart? n = some s
  generated : Suffix.IsGenerated n
  file : (m.original? (x ++ [s])).any Entry.isFile = true
  named : m.rules.ignores s = false
  free : ¬ m.Shadowed x s

/-- **Skipping generated files saves a file if nothing above it is shadowed and what shadows it
replaces it.**  When the tasks of copying have run to their end, in any order, a file none of whose
names is ignored is in the copy itself or by its source exactly when no directory that it is in is
shadowed, and when the file itself, if it is shadowed, has the ending of a generated file and is so
by a file that is neither ignored nor shadowed.  Nothing else is asked of the names: without a
shadow the file itself is there. -/
theorem saved_iff (h : m.Starts) {w w' : World} (hw : w.disk = m.disk) {c : Counts}
    (hruns : Runs m.rules [.make m.source m.target] w c w') {bytes : Bytes}
    (hfile : m.original? (x ++ [n]) = some (.file bytes))
    (hnames : ∀ k ∈ x ++ [n], m.rules.ignores k = false) :
    m.Saved w'.disk x n ↔
      (∀ y k, y ++ [k] <+: x → ¬ m.Shadowed y k) ∧ (m.Shadowed x n → ∃ s, m.Replaced x n s) := by
  have hcopy : ∀ y, (w'.disk.entryAt? (m.goal ++ y)).any Entry.isFile =
      (m.keeps y && (m.original? y).any Entry.isFile) := fun y => by
    rw [(image_of_runs h hw hruns y).1, any_isFile_image? (image_of_runs h hw hruns y).2]
  have hx : m.keeps x = true ↔ ∀ y k, y ++ [k] <+: x → ¬ m.Shadowed y k := by
    rw [keeps_iff]
    exact and_iff_right fun k hk => hnames k (List.mem_append_left _ hk)
  have hn : m.rules.ignores n = false :=
    hnames n (List.mem_append_right _ (List.mem_singleton_self n))
  have hself : (m.original? (x ++ [n])).any Entry.isFile = true := by
    rw [hfile]
    rfl
  unfold Saved
  simp only [hcopy, Bool.and_eq_true, keeps_concat_iff, hself, hn, ← hx]
  constructor
  · rintro (⟨⟨hk, -, hfree⟩, -⟩ | ⟨hgen, s, hs, ⟨hk, hsn, hfree⟩, hsf⟩)
    · exact ⟨hk, fun hsh => absurd hsh hfree⟩
    · exact ⟨hk, fun _ => ⟨s, hs, hgen, hsf, hsn, hfree⟩⟩
  · rintro ⟨hk, hsh⟩
    by_cases hfree : m.Shadowed x n
    · obtain ⟨s, hs⟩ := hsh hfree
      exact Or.inr ⟨hs.generated, s, hs.counterpart, ⟨hk, hs.named, hs.free⟩, hs.file⟩
    · exact Or.inl ⟨⟨hk, trivial, hfree⟩, trivial⟩

theorem saved_iff_sample :
    (∃ j, Runs Sample.rules [.make Sample.mirror.source Sample.mirror.target]
        ⟨Sample.disk 0, []⟩ ⟨1, 1, 2⟩ ⟨Sample.disk 5, j⟩) ∧
      Sample.mirror.Saved (Sample.disk 5) [] "d" ∧ Sample.mirror.Saved (Sample.disk 5) [] "a.ts" ∧
      ¬ Sample.mirror.Saved (Sample.disk 5) [] "x.js" := by
  obtain ⟨j, hruns⟩ := Sample.runs
  have hnone : ∀ (y : Place) (k : Text), ¬ y ++ [k] <+: [] := fun y k h =>
    List.append_ne_nil_of_right_ne_nil y (List.cons_ne_nil k []) (List.prefix_nil.mp h)
  have hfile : Sample.mirror.original? ["d"] = some (.file [255]) := by decide
  have hsource : Sample.mirror.original? ["a.ts"] = some (.file (Utf8.encode Sample.importing)) :=
    rfl
  have hshadowed : Sample.mirror.original? ["x.js"] = some (.file [98]) := by decide
  -- neither the file nor the source has a source of its own
  have hfree : ∀ n : Text, Suffix.sourceCounterpart? n = none → ¬ Sample.mirror.Shadowed [] n :=
    fun n hn ⟨s, hs, _⟩ => by cases hn.symm.trans hs
  refine ⟨⟨j, hruns⟩, ?_, ?_, fun h => ?_⟩
  · exact (saved_iff (x := []) Sample.starts rfl hruns hfile (by decide)).mpr
      ⟨fun y k h => absurd h (hnone y k), fun hs => absurd hs (hfree "d" (by decide))⟩
  · exact (saved_iff (x := []) Sample.starts rfl hruns hsource (by decide)).mpr
      ⟨fun y k h => absurd h (hnone y k), fun hs => absurd hs (hfree "a.ts" (by decide))⟩
  · have hsaved := (saved_iff (x := []) Sample.starts rfl hruns hshadowed (by decide)).mp h
    obtain ⟨s, hs⟩ := hsaved.2 ⟨"x.ts", by decide, by decide⟩
    have hcounterpart : Suffix.sourceCounterpart? "x.js" = some "x.ts" := by decide
    obtain rfl : s = "x.ts" := Option.some.inj (hs.counterpart.symm.trans hcounterpart)
    exact absurd hs.file (by decide)

namespace Lost

/-- What stands at first, and then what is made, one after the other. -/
def entries : List (Place × Entry) :=
  [(["lib"], .dir), (["lib", "x.js"], .dir), (["lib", "x.js", "d"], .file [255]),
    (["lib", "x.ts"], .dir), (["out"], .dir), (["out", "lib"], .dir),
    (["out", "lib", "x.ts"], .dir)]

/-- The world when `n` entries have been made. -/
def world (n : Nat) : World where
  disk := { entries := entries.take (4 + n), cwd := [], tag := "t" }

/-- A library with two directories, of which one has the name of a file that is generated from the
other, and has a file in it. -/
def mirror : Mirror where
  rules := ⟨{ libraries := [], root := ⟨.slash, ["out"]⟩ }, false, []⟩
  disk := (world 0).disk
  source := ⟨.slash, ["lib"]⟩
  target := ⟨.slash, ["out", "lib"]⟩

theorem starts : mirror.Starts := by
  refine .of_noDots (by decide +kernel) rfl (Disk.isTree_of_entries (by decide +kernel)) ?_
    (by decide +kernel) (by decide +kernel) (by decide +kernel)
  exact fun y hy => Disk.entryAt?_eq_none_of_keys (by decide +kernel) hy

/-- Listing the library leaves both names to copy. -/
theorem list_top : Act.Does (Task.step mirror.rules (.list mirror.source mirror.target)) (world 2)
    { tasks := [.compare mirror.source mirror.target "x.js" "x.ts",
        .classify mirror.source mirror.target "x.ts"] } (world 2) := by
  have hsort : Text.sort ["x.js", "x.ts"] = ["x.js", "x.ts"] :=
    Text.sort_of_sorted (by decide +kernel)
  exact Act.does_bind.mpr ⟨_, world 2, Act.does_ask.mpr ⟨congrArg Except.ok hsort, rfl⟩, rfl⟩

/-- Listing the directory that is copied leaves nothing to do. -/
theorem list_inner : Act.Does (Task.step mirror.rules (.list (mirror.source.down ["x.ts"])
    (mirror.target.down ["x.ts"]))) (world 3) {} (world 3) := by
  have hsort : Text.sort [] = [] := Text.sort_of_sorted .nil
  exact Act.does_bind.mpr ⟨_, world 3, Act.does_ask.mpr ⟨congrArg Except.ok hsort, rfl⟩, rfl⟩

/-- The names are copied one after the other. -/
theorem runs : Runs mirror.rules [.make mirror.source mirror.target] (world 0)
    ⟨0, 0, 1⟩ (world 3) := by
  let ts := Task.classify mirror.source mirror.target "x.ts"
  refine @Runs.step _ [] [] _ { tasks := [.list mirror.source mirror.target] }
    ⟨0, 0, 1⟩ _ (world 2) _ rfl ?_
  refine @Runs.step _ [] [] _ _ ⟨0, 0, 1⟩ _ _ _ list_top ?_
  refine @Runs.step _ [] [ts] _ { counts := { skipped := 1 } } ⟨0, 0, 0⟩ _ (world 2) _ rfl ?_
  refine @Runs.step _ [] [] _
    { tasks := [.make (mirror.source.down ["x.ts"]) (mirror.target.down ["x.ts"])] } ⟨0, 0, 0⟩ _
    (world 2) _ rfl ?_
  refine @Runs.step _ [] [] _
    { tasks := [.list (mirror.source.down ["x.ts"]) (mirror.target.down ["x.ts"])] } ⟨0, 0, 0⟩ _
    (world 3) _ rfl ?_
  refine @Runs.step _ [] [] _ _ ⟨0, 0, 0⟩ _ _ _ list_inner ?_
  exact .done (world 3)

end Lost

/-- A directory whose name ends like that of a generated file is skipped with the files in it. -/
theorem runs_loses :
    ¬ ∀ (m : Mirror) (w w' : World) (c : Counts) (x : Place) (n : Text) (bytes : Bytes),
    m.Starts → w.disk = m.disk → Runs m.rules [.make m.source m.target] w c w' →
    m.original? (x ++ [n]) = some (.file bytes) → (∀ k ∈ x ++ [n], m.rules.ignores k = false) →
    m.Saved w'.disk x n := by
  intro h
  have hsaved := h Lost.mirror _ _ _ ["x.js"] "d" [255] Lost.starts rfl Lost.runs rfl (by decide)
  rcases hsaved with hself | ⟨-, s, hs, -⟩
  · exact absurd hself (by decide)
  · have hnone : Suffix.sourceCounterpart? "d" = none := by decide
    rw [hnone] at hs
    cases hs

end Mirror

end Assembly

end UberPackage
