/-
  What the entry point of a library exports.

  The entry point is written over the copy of the library, and names the module of the library's
  types without looking where it lies.  A module is the first of three files that is there
  (`Disk.module?`), so the entry point can name itself or a module that stands beside the right one.
  `Exposed` says when it does not; then and only then it exports the source that the types point to,
  redirected like all sources (`Build.assemble_exports`).
-/
import UberPackage.Proofs.Build.Output

namespace UberPackage

/-! ## Names of modules -/

namespace Path

/-- An ending without a slash belongs to the last part of a path. -/
theorem exists_last (stem : Text) : ∃ x n, n <:+ stem ∧ Code.char '/' ∉ n ∧
    ∀ ending : Text, Code.char '/' ∉ ending → partsOf (stem ++ ending) = x ++
      partsOf (n ++ ending) := by
  induction stem using List.reverseRecOn with
  | nil => exact ⟨[], [], List.nil_suffix, List.not_mem_nil, fun _ _ => rfl⟩
  | append_singleton stem c ih =>
    obtain ⟨x, n, ⟨start, hstart⟩, hn, hparts⟩ := ih
    by_cases hc : c = .char '/'
    · refine ⟨partsOf stem, [], List.nil_suffix, List.not_mem_nil, fun ending _ => ?_⟩
      rw [hc, List.append_assoc, List.singleton_append, partsOf_append_slash, List.nil_append]
    · refine ⟨x, n ++ [c], ⟨start, by rw [← hstart, List.append_assoc]⟩, ?_, fun ending he => ?_⟩
      · rw [List.mem_append, List.mem_singleton]
        exact fun h => h.elim hn fun he => hc he.symm
      · rw [List.append_assoc, List.append_assoc]
        refine hparts _ ?_
        rw [List.singleton_append, List.mem_cons]
        exact fun h => h.elim (fun he => hc he.symm) he

end Path

namespace Layout

/-- The places at which a module can have its file, in the order in which they are tried. -/
def modulePlaces (module : Text) : List Place :=
  [moduleFile module ".ts", moduleFile module ".d.ts", moduleFile module "/index.ts"]

/-- The place is the first of those of a module that are taken. -/
def IsFirst (taken : Place → Prop) (module : Text) (y : Place) : Prop :=
  (taken (moduleFile module ".ts") ∧ y = moduleFile module ".ts") ∨
  (¬ taken (moduleFile module ".ts") ∧ taken (moduleFile module ".d.ts") ∧
    y = moduleFile module ".d.ts") ∨
  (¬ taken (moduleFile module ".ts") ∧ ¬ taken (moduleFile module ".d.ts") ∧
    taken (moduleFile module "/index.ts") ∧ y = moduleFile module "/index.ts")

theorem moduleFile_index (module : Text) :
    moduleFile module "/index.ts" = Path.partsOf module ++ [("index.ts" : Text)] := by
  show Path.partsOf (module ++ .char '/' :: ("index.ts" : Text)) = _
  rw [Path.partsOf_append_slash, Path.partsOf_component (n := "index.ts") (by decide)]

theorem moduleFile_declarations (module : Text) :
    moduleFile module "/index.d.ts" = Path.partsOf module ++ [("index.d.ts" : Text)] := by
  show Path.partsOf (module ++ .char '/' :: ("index.d.ts" : Text)) = _
  rw [Path.partsOf_append_slash, Path.partsOf_component (n := "index.d.ts") (by decide)]

theorem eq_of_concat_eq_singleton {y : Place} {a b : Text} (h : y ++ [a] = [b]) : y = [] ∧ a = b :=
  (List.append_inj' (show y ++ [a] = [] ++ [b] from h) rfl).imp_right fun he => (List.cons.inj he).1

/-- The source and the declarations of a module stand beside one another, and not in the directory
of its name. -/
theorem exists_beside (module : Text) :
    ∃ x n, n <:+ module ∧ moduleFile module ".ts" = x ++ [(n ++ ".ts" : Text)] ∧
    moduleFile module ".d.ts" = x ++ [(n ++ ".d.ts" : Text)] ∧
    Path.partsOf module = x ++ Path.partsOf n ∧
    (Path.partsOf n = [] → n = [] ∨ n = ".") := by
  obtain ⟨x, n, hsuffix, hn, hparts⟩ := Path.exists_last module
  have hending : ∀ ending : Text, Code.char '/' ∉ ending → 3 ≤ ending.length →
      moduleFile module ending = x ++ [n ++ ending] := fun ending he hlen => by
    have hcomponent := Text.IsComponent.append_right he (by rw [List.length_append]; omega) hn
    rw [moduleFile, hparts ending he, Path.partsOf_component hcomponent]
  have hmodule := hparts [] List.not_mem_nil
  rw [List.append_nil, List.append_nil] at hmodule
  refine ⟨x, n, hsuffix, hending _ (by decide) (by decide), hending _ (by decide) (by decide),
    hmodule, fun hnil => ?_⟩
  rw [Path.partsOf_of_no_slash hn, List.filter_eq_nil_iff] at hnil
  have hpart := hnil n (List.mem_singleton_self n)
  rw [Path.isPart, Bool.and_eq_true, bne_iff_ne, bne_iff_ne, not_and_or, not_not, not_not] at hpart
  exact hpart

/-- A file in the directory of a module is not one of those beside it. -/
theorem beside_ne {module w ending : Text} (hw : w = "index.ts" ∨ w = "index.d.ts")
    (he : ending = ".ts" ∨ ending = ".d.ts") :
    moduleFile module ending ≠ Path.partsOf module ++ [w] := by
  obtain ⟨x, n, -, hsource, hdeclarations, hmodule, hnil⟩ := exists_beside module
  intro h
  have hlast : x ++ [n ++ ending] = x ++ Path.partsOf n ++ [w] := by
    rw [← hmodule, ← h]
    rcases he with rfl | rfl
    · exact hsource.symm
    · exact hdeclarations.symm
  rw [List.append_assoc] at hlast
  have hrest := List.append_cancel_left hlast
  have hempty : Path.partsOf n = [] := by
    have hlength := congrArg List.length hrest
    rw [List.length_append, List.length_singleton, List.length_singleton] at hlength
    exact List.length_eq_zero_iff.mp (by omega)
  rw [hempty] at hrest
  have hname := (List.cons.inj hrest).1
  rcases hnil hempty with rfl | rfl <;> rcases he with rfl | rfl <;> rcases hw with rfl | rfl <;>
    exact absurd hname (by decide)

/-- No module has its file where the bindings are. -/
theorem moduleFile_ne_bindings (module : Text) :
    ∀ ending ∈ ([".ts", ".d.ts", "/index.ts"] : List Text),
    moduleFile module ending ≠ [Emission.bindingsName] := by
  obtain ⟨x, n, -, hsource, hdeclarations, -⟩ := exists_beside module
  have hends :
      ∀ w : Text, ∀ ending : Text, ending.reverse[0]? = some (.char 's') → 0 < ending.length →
      w ++ ending ≠ [] ++ Emission.bindingsName := fun w ending hlast hlength =>
    Text.append_ne_append 0 hlength (by decide) (by rw [hlast]; decide)
  intro ending hmem he
  simp only [List.mem_cons, List.not_mem_nil, or_false] at hmem
  rcases hmem with rfl | rfl | rfl
  · exact hends n ".ts" (by decide) (by decide)
      (eq_of_concat_eq_singleton (hsource.symm.trans he)).2
  · exact hends n ".d.ts" (by decide) (by decide)
      (eq_of_concat_eq_singleton (hdeclarations.symm.trans he)).2
  · exact absurd (eq_of_concat_eq_singleton ((moduleFile_index module).symm.trans he)).2 (by decide)

end Layout

namespace Disk

/-- The place of the file of a module, seen from a directory. -/
def module? (d : Disk) (directory : Place) (module : Text) : Option Place :=
  ((Layout.modulePlaces module).map (directory ++ ·)).find? fun q => (d.entryAt? q).any Entry.isFile

theorem any_isFile {e : Option Entry} : e.any Entry.isFile = true ↔
    ∃ bytes, e = some (.file bytes) := by
  rcases e with _ | _ | bytes
  · simp
  · simp [Entry.isFile]
  · simp [Entry.isFile]

/-- A module has its file at the first of its places that is a file. -/
theorem module?_eq_some {d : Disk} {directory y : Place} {module : Text} {taken : Place → Prop}
    (h : ∀ ending ∈ ([".ts", ".d.ts", "/index.ts"] : List Text),
      (∃ bytes, d.entryAt? (directory ++ Layout.moduleFile module ending) = some (.file bytes)) ↔
        taken (Layout.moduleFile module ending)) :
    d.module? directory module = some (directory ++ y) ↔ Layout.IsFirst taken module y := by
  have hfile := fun ending hmem => any_isFile.trans (h ending hmem)
  have heq : ∀ z, some (directory ++ z) = some (directory ++ y) ↔ y = z := fun z => by
    rw [Option.some.injEq, List.append_cancel_left_eq, eq_comm]
  rw [Layout.IsFirst, ← hfile ".ts" (by simp), ← hfile ".d.ts" (by simp),
    ← hfile "/index.ts" (by simp)]
  rw [module?, Layout.modulePlaces, List.map_cons, List.map_cons, List.map_cons, List.map_nil,
    List.find?_cons, List.find?_cons, List.find?_cons, List.find?_nil]
  split
  · next h₁ => simp [h₁, heq]
  · next h₁ =>
    split
    · next h₂ => simp [h₁, h₂, heq]
    · next h₂ =>
      split
      · next h₃ => simp [h₁, h₂, h₃, heq]
      · next h₃ => simp [h₁, h₂, h₃]

end Disk

namespace Assembly.Mirror

variable {m : Mirror}

/-- The copy has a file at a place. -/
def KeepsFile (m : Mirror) (y : Place) : Prop :=
  m.keeps y = true ∧ ∃ bytes, m.original? y = some (.file bytes)

theorem isFile_image? {y : Place} (h : m.Defined y) :
    (∃ bytes, m.image? y = some (.file bytes)) ↔ m.KeepsFile y := by
  rw [KeepsFile]
  cases hk : m.keeps y with
  | false =>
    rw [(m.image?_of_not_keeps hk).1]
    simp
  | true =>
    cases ho : m.original? y with
    | none =>
      rw [(m.image?_of_none ho).1]
      simp
    | some e =>
      cases e with
      | dir =>
        rw [(m.image?_of_dir hk ho).1]
        simp
      | file bytes =>
        rw [Defined, hk, ho] at h
        obtain ⟨e, he⟩ := Option.isSome_iff_exists.mp h
        refine ⟨fun _ => ⟨rfl, bytes, rfl⟩, fun _ => ?_⟩
        rw [image?, if_pos hk, ho] at he ⊢
        dsimp only at he ⊢
        split at he
        · next hs =>
          obtain ⟨out, hout, -⟩ := Option.map_eq_some_iff.mp he
          rw [if_pos hs, hout]
          exact ⟨out, rfl⟩
        · next hs => exact ⟨bytes, if_neg hs⟩

/-- Where declarations are kept, no source stands beside them. -/
theorem not_keepsFile_of_declarations {x : Place} {n : Text}
    (h : m.keeps (x ++ [(n ++ ".d.ts" : Text)]) = true) :
    ¬ m.KeepsFile (x ++ [(n ++ ".ts" : Text)]) := by
  rintro ⟨-, bytes, hbytes⟩
  rw [keeps_concat, Bool.and_eq_true, Bool.not_eq_true', Rules.drops,
    Suffix.sourceCounterpart?_declarations,
    Bool.or_eq_false_iff] at h
  have hnone := h.2.2
  rw [original?, ← List.append_assoc] at hbytes
  rw [Option.any_some, hbytes] at hnone
  cases hnone

/-- The file that the types point to is not hidden: neither is it written over by the entry point,
nor does the entry point come before it as the source of its declarations; and as the index of a
directory, it has no module of the directory's name before it. -/
structure Exposed (m : Mirror) (types file : Text) : Prop where
  notEntry : Path.partsOf file ≠ [Emission.indexName]
  notDeclarations : types = file → Path.partsOf file ≠ [("index.d.ts" : Text)]
  alone : ∀ stem, Suffix.NamesIndex types stem → file = stem ++ "/index.ts" ∧
    ∀ ending ∈ ([".ts", ".d.ts"] : List Text), Layout.moduleFile stem ending ≠
      [Emission.indexName] ∧
      ¬ m.KeepsFile (Layout.moduleFile stem ending)

/-- A place at which the copy has a file, or the entry point is. -/
def Taken (m : Mirror) (y : Place) : Prop := y = [Emission.indexName] ∨ m.KeepsFile y

section Exposed

open Layout

variable {types module file : Text} {d : Disk} {directory : Place}

/-- The declarations of a directory are not tried. -/
theorem exposed_of_directoryDeclarations (hindex : Suffix.NamesIndex types module) :
    IsFirst m.Taken module (Path.partsOf (module ++ "/index.d.ts")) ∧
      Path.partsOf (module ++ "/index.d.ts") ≠ [Emission.indexName] ↔
        m.Exposed types (module ++ "/index.d.ts") := by
  have hplace :
      Path.partsOf (module ++ "/index.d.ts") = Path.partsOf module ++ [("index.d.ts" : Text)] :=
    moduleFile_declarations module
  rw [hplace, IsFirst, moduleFile_index]
  constructor
  · rintro ⟨⟨-, he⟩ | ⟨-, -, he⟩ | ⟨-, -, -, he⟩, -⟩
    · exact absurd he.symm (beside_ne (Or.inr rfl) (Or.inl rfl))
    · exact absurd he.symm (beside_ne (Or.inr rfl) (Or.inr rfl))
    · exact absurd (List.cons.inj (List.append_cancel_left he)).1 (by decide)
  · exact fun hexposed =>
      absurd (List.append_cancel_left (hexposed.alone module hindex).1) (by decide)

/-- The index of a directory is tried last. -/
theorem exposed_of_index (hindex : Suffix.NamesIndex types module)
    (hkept : m.KeepsFile (Path.partsOf (module ++ "/index.ts"))) :
    IsFirst m.Taken module (Path.partsOf (module ++ "/index.ts")) ∧
      Path.partsOf (module ++ "/index.ts") ≠ [Emission.indexName] ↔
        m.Exposed types (module ++ "/index.ts") := by
  have hplace :
      Path.partsOf (module ++ "/index.ts") = Path.partsOf module ++ [("index.ts" : Text)] :=
    moduleFile_index module
  rw [hplace] at hkept ⊢
  rw [IsFirst, moduleFile_index]
  constructor
  · rintro ⟨⟨-, he⟩ | ⟨-, -, he⟩ | ⟨hfirst, hsecond, -⟩, hne⟩
    · exact absurd he.symm (beside_ne (Or.inl rfl) (Or.inl rfl))
    · exact absurd he.symm (beside_ne (Or.inl rfl) (Or.inr rfl))
    · refine ⟨hplace ▸ hne, fun _ he => ?_, fun stem hstem => ?_⟩
      · rw [hplace] at he
        exact absurd (eq_of_concat_eq_singleton he).2 (by decide)
      · obtain rfl := hstem.unique hindex
        refine ⟨rfl, fun ending hmem => ?_⟩
        rcases List.mem_pair.mp hmem with rfl | rfl
        · exact not_or.mp hfirst
        · exact not_or.mp hsecond
  · intro hexposed
    have hfree := (hexposed.alone module hindex).2
    refine ⟨Or.inr (Or.inr ⟨not_or.mpr (hfree ".ts" (by simp)),
      not_or.mpr (hfree ".d.ts" (by simp)), Or.inr hkept, rfl⟩), ?_⟩
    rw [← hplace]
    exact hexposed.notEntry

/-- Declarations come after the source that they are made from. -/
theorem exposed_of_declarations (htypes : types = module ++ ".d.ts")
    (hnone : ∀ stem, ¬ Suffix.NamesIndex types stem)
    (hkept : m.KeepsFile (Path.partsOf (module ++ ".d.ts"))) :
    IsFirst m.Taken module (Path.partsOf (module ++ ".d.ts")) ∧
      Path.partsOf (module ++ ".d.ts") ≠ [Emission.indexName] ↔
        m.Exposed types (module ++ ".d.ts") := by
  obtain ⟨x, n, -, hts, hdts, -, -⟩ := exists_beside module
  have hplace : Path.partsOf (module ++ ".d.ts") = x ++ [(n ++ ".d.ts" : Text)] := hdts
  rw [hplace] at hkept ⊢
  rw [IsFirst, hts, hdts]
  constructor
  · rintro ⟨⟨-, he⟩ | ⟨hfirst, -⟩ | ⟨-, -, -, he⟩, hne⟩
    · exact absurd (List.append_cancel_left (List.cons.inj (List.append_cancel_left he)).1)
        (by decide)
    · refine ⟨hplace ▸ hne, fun _ he => hfirst (Or.inl ?_),
        fun stem hstem => absurd hstem (hnone stem)⟩
      rw [hplace] at he
      obtain ⟨rfl, hn⟩ := eq_of_concat_eq_singleton he
      rw [List.append_cancel_right (show n ++ ".d.ts" = ("index" : Text) ++ ".d.ts" from hn)]
      rfl
    · rw [moduleFile_index, ← hdts] at he
      exact absurd he (beside_ne (Or.inl rfl) (Or.inr rfl))
  · intro hexposed
    refine ⟨Or.inr (Or.inl ⟨not_or.mpr ⟨fun he => ?_, not_keepsFile_of_declarations hkept.1⟩,
      Or.inr hkept, rfl⟩), hplace ▸ hexposed.notEntry⟩
    obtain ⟨rfl, hn⟩ := eq_of_concat_eq_singleton he
    refine hexposed.notDeclarations htypes ?_
    rw [hplace, List.append_cancel_right (show n ++ ".ts" = ("index" : Text) ++ ".ts" from hn)]
    rfl

/-- A source is tried first. -/
theorem exposed_of_source (hno : types = module ++ ".ts" →
      ∀ stem, module ++ ".ts" ≠ stem ++ ".d.ts")
    (hnone : ∀ stem, ¬ Suffix.NamesIndex types stem)
    (hkept : m.KeepsFile (Path.partsOf (module ++ ".ts"))) :
    IsFirst m.Taken module (Path.partsOf (module ++ ".ts")) ∧
      Path.partsOf (module ++ ".ts") ≠ [Emission.indexName] ↔
        m.Exposed types (module ++ ".ts") := by
  obtain ⟨x, n, hsuffix, hts, -, -, -⟩ := exists_beside module
  have hplace : Path.partsOf (module ++ ".ts") = x ++ [(n ++ ".ts" : Text)] := hts
  rw [hplace] at hkept ⊢
  rw [IsFirst, hts]
  constructor
  · rintro ⟨-, hne⟩
    refine ⟨hplace ▸ hne, fun htypes he => ?_, fun stem hstem => absurd hstem (hnone stem)⟩
    rw [hplace] at he
    obtain ⟨start, rfl⟩ := hsuffix
    refine hno htypes (start ++ "index") ?_
    rw [List.append_assoc, (eq_of_concat_eq_singleton he).2, List.append_assoc]
    rfl
  · exact fun hexposed => ⟨Or.inl ⟨Or.inr hkept, rfl⟩, hplace ▸ hexposed.notEntry⟩

/-- What the entry point names is the file that the types point to, exactly when this is exposed. -/
theorem module?_iff_exposed (hpoints : Suffix.PointsTo types file)
    (hkept : m.KeepsFile (Path.partsOf file))
      (h : ∀ ending ∈ ([".ts", ".d.ts", "/index.ts"] : List Text),
      (∃ bytes, d.entryAt? (directory ++ moduleFile (Suffix.entryModule types) ending) =
        some (.file bytes)) ↔
        m.Taken (moduleFile (Suffix.entryModule types) ending)) :
    d.module? directory (Suffix.entryModule types) = some (directory ++ Path.partsOf file) ∧
      Path.partsOf file ≠ [Emission.indexName] ↔ m.Exposed types file := by
  rw [Disk.module?_eq_some h]
  have hcases := hpoints.cases
  generalize Suffix.entryModule types = module at hcases ⊢
  rcases hcases with ⟨rfl, rfl⟩ | ⟨rfl, hindex⟩ | ⟨rfl, htypes, hnone⟩ | ⟨rfl, hno, hnone⟩
  · exact exposed_of_directoryDeclarations (Or.inr rfl)
  · exact exposed_of_index hindex hkept
  · exact exposed_of_declarations htypes hnone hkept
  · exact exposed_of_source hno hnone hkept

end Exposed

end Assembly.Mirror

namespace Build

open Act Disk

variable {s : Settings} {libraries : List Library} {uber : Option Json} {l : Library}
  {u u' : World} {c : Counts}

/-- The entry point of a library exports a file of it: the module that it names is the copy of the
file, with the text redirected, and is not the entry point itself. -/
structure Exports (s : Settings) (libraries : List Library) (l : Library) (d d' : Disk)
    (file : Text) : Prop where
  module : d'.module? (s.directory l).parts (Suffix.entryModule l.manifest.types) =
    some ((s.directory l).parts ++ Path.partsOf file)
  other : Path.partsOf file ≠ [Emission.indexName]
  text : ∃ bytes out, d.entryAt? (l.root.parts ++ Path.partsOf file) = some (.file bytes) ∧
    (rules s libraries).redirected? ((s.directory l).down (Path.partsOf file).dropLast)
      bytes = some out ∧
    d'.entryAt? ((s.directory l).parts ++ Path.partsOf file) = some (.file out)

/-- The files in the directory of a library that has been assembled: the entry point, the bindings
and those that the copy keeps. -/
theorem isFile_directoryImage? {z : Place} (hz : z ≠ [Emission.bindingsName])
    (hindex : z ≠ [Emission.indexName]) {d : Disk} (hdefined : (s.mirror libraries d l).Defined z) :
    (∃ bytes, s.directoryImage? libraries uber d l z = some (.file bytes)) ↔
      (s.mirror libraries d l).KeepsFile z := by
  rw [Settings.directoryImage?, if_neg hindex, if_neg fun h => hz h.1]
  exact Assembly.Mirror.isFile_image? hdefined

/-- A library has been assembled where nothing stood, with a file that its types point to. -/
structure Assembled (s : Settings) (libraries : List Library) (uber : Option Json)
    (l : Library) (u : World) (c : Counts) (u' : World) (file : Text) : Prop where
  settings : s.IsResolved
  short : l.shortName.IsPlain
  root : l.root.IsResolved
  tree : u.disk.IsFileTree
  apart : Place.Unrelated (s.directory l).parts l.root.parts
  empty : ∀ q, (s.directory l).parts <+: q → u.disk.entryAt? q = none
  assembled : Does (assemble s (rules s libraries) uber l) u c u'
  points : Suffix.PointsTo l.manifest.types file
  kept : (s.mirror libraries u.disk l).KeepsFile (Path.partsOf file)

/-- **The entry point exports the types**: when a library has been assembled where nothing stood,
its entry point names the module of its types; and this is the copy of the file that the types point
to, redirected and apart from the entry point, exactly when the file is exposed. -/
theorem assemble_exports {file : Text} (h : Assembled s libraries uber l u c u' file) :
    u'.disk.entryAt? ((s.directory l).parts ++ [Emission.indexName]) =
        Entry.ofText? (Glue.exportAll (Suffix.entryModule l.manifest.types)) ∧
      (Exports s libraries l u.disk u'.disk file ↔
        (s.mirror libraries u.disk l).Exposed l.manifest.types file) := by
  obtain ⟨hs, hl, hroot, hu, hapart, hempty, h, hpoints, hkept⟩ := h
  obtain ⟨stem, rfl⟩ := hpoints.exists_stem
  obtain ⟨x, n, -, hplace, -⟩ := Layout.exists_beside stem
  rw [Layout.moduleFile] at hplace
  have htop : (s.mirror libraries u.disk l).top = l.root.parts := placeOf_resolved hroot
  obtain ⟨hkeeps, bytes, hbytes⟩ := hkept
  have hfile :
      u.disk.entryAt? (l.root.parts ++ Path.partsOf (stem ++ ".ts")) = some (.file bytes) := by
    rw [← htop]
    exact hbytes
  have hdir : u.disk.entryAt? l.root.parts = some .dir := by
    refine hu.dir_of_prefix (List.prefix_append _ (Path.partsOf (stem ++ ".ts"))) ?_
      (by rw [hfile]; rfl)
    rw [hplace]
    simp
  have himage := fun z => directory_of_assemble hs hl hroot hu hdir hapart hempty h z
  have hentry := (keepsFile_of_assemble hs hl h).1
  refine ⟨?_, ?_⟩
  · rw [(himage _).1, Settings.directoryImage?, if_pos rfl]
    rfl
  have htaken : ∀ ending ∈ ([".ts", ".d.ts", "/index.ts"] : List Text),
      (∃ bytes, u'.disk.entryAt? ((s.directory l).parts ++
        Layout.moduleFile (Suffix.entryModule l.manifest.types) ending) = some (.file bytes)) ↔
      (s.mirror libraries u.disk l).Taken
        (Layout.moduleFile (Suffix.entryModule l.manifest.types) ending) := by
    intro ending hmem
    by_cases hindex :
        Layout.moduleFile (Suffix.entryModule l.manifest.types) ending = [Emission.indexName]
    · rw [hindex]
      exact ⟨fun _ => Or.inl rfl, fun _ => hentry⟩
    · rw [(himage _).1, isFile_directoryImage?
        (Layout.moduleFile_ne_bindings _ ending hmem) hindex (himage _).2]
      exact ⟨Or.inr, fun hkept => hkept.resolve_left hindex⟩
  have hiff := Assembly.Mirror.module?_iff_exposed hpoints ⟨hkeeps, bytes, hbytes⟩ htaken
  refine ⟨fun hexports => hiff.mp ⟨hexports.module, hexports.other⟩, fun hexposed => ?_⟩
  obtain ⟨hmodule, hother⟩ := hiff.mpr hexposed
  have hcopy := himage (Path.partsOf (stem ++ ".ts"))
  rw [Settings.directoryImage?, if_neg hother, if_neg fun hb =>
    Layout.moduleFile_ne_bindings stem ".ts" (by simp) hb.1,
    Assembly.Mirror.Defined, hkeeps, hbytes] at hcopy
  obtain ⟨e, he⟩ := Option.isSome_iff_exists.mp hcopy.2
  have hsource :
      Suffix.isSource (Assembly.Mirror.nameOf (Path.partsOf (stem ++ ".ts"))) = true := by
    rw [hplace, Assembly.Mirror.nameOf_concat]
    exact List.isSuffixOf_iff_suffix.mpr (List.suffix_append n ".ts")
  have hredirected := he
  rw [Assembly.Mirror.image?, if_pos hkeeps, hbytes] at hredirected
  dsimp only at hredirected
  rw [if_pos hsource] at hredirected
  obtain ⟨out, hout, rfl⟩ := Option.map_eq_some_iff.mp hredirected
  exact ⟨hmodule, hother, bytes, out, hfile, hout, hcopy.1.trans he⟩

namespace Sample

/-! A library with sources at its root, in a directory, and beside it with the directory's name. -/

/-- What stands at first, and then what is made, one after the other. -/
def sourceEntries : List (Place × Entry) :=
  [(["p"], .dir), (["p", "index.ts"], .file [59]), (["p", "main"], .dir),
    (["p", "main", "index.ts"], .file [59]), (["p", "main.ts"], .file []),
    (["lib"], .dir), (["lib", "core"], .dir), (["lib", "core", "main"], .dir),
    (["lib", "core", "index.ts"], .file [59]), (["lib", "core", "main.ts"], .file []),
    (["lib", "core", "main", "index.ts"], .file [59])]

/-- The disk when `n` entries have been made. -/
def sources (n : Nat) : Disk := { entries := sourceEntries.take (5 + n), cwd := [], tag := "t" }

theorem isFileTree_sources : (sources 0).IsFileTree where
  distinct := by decide
  tree := Disk.isTree_of_entries (by decide)
  tag := by decide

/-- The library, with its types. -/
def typed (types : Text) : Library :=
  ⟨⟨[("name", .str "@s/core"), ("types", .str types)]⟩, ⟨.slash, ["p"]⟩, "core"⟩

/-- A text too short for a reference stays as it is. -/
theorem redirects_short {layout : Layout} (hprovider : layout.provider? [] = none) {cs : List Char}
    (hcs : cs = [] ∨ cs = [';']) (directory : Path) (file : Text) :
    (layout.redirectChars false cs directory file).2 = .ok (Utf8.encode cs) := by
  have hnone : ∀ r, Redirection.ofReference? layout directory (Utf8.encode cs) r = none := by
    intro r
    have hpiece :
        r.literal.bytes (Utf8.encode cs) = [] ∨ r.literal.bytes (Utf8.encode cs) = [59] := by
      have hsource : Utf8.encode cs = [] ∨ Utf8.encode cs = [59] := by
        rcases hcs with rfl | rfl
        · exact Or.inl rfl
        · exact Or.inr rfl
      rw [TypeScript.Node.bytes]
      rcases hsource with hs | hs
      · rw [hs, List.take_nil, List.drop_nil]
        exact Or.inl rfl
      · rw [hs]
        rcases r.literal.stop with _ | k
        · exact Or.inl (List.drop_nil)
        · rcases r.literal.start with _ | j
          · exact Or.inr (by simp)
          · exact Or.inl (by simp)
    have hresolve : layout.resolve? [] directory = none := by rw [Layout.resolve?, hprovider]; rfl
    rw [Redirection.ofReference?]
    rcases hpiece with hp | hp
    · rw [hp]
      show (layout.resolve? [] directory).map _ = none
      rw [hresolve]
      rfl
    · rw [hp]
      show (layout.resolve? [] directory).map _ = none
      rw [hresolve]
      rfl
  unfold Layout.redirectChars
  dsimp only
  rw [Bool.and_false, if_neg Bool.false_ne_true, Layout.redirectTree,
    List.filterMap_eq_nil_iff.mpr fun r _ => hnone r]
  show Except.ok (Edit.applyAll [] (Utf8.encode cs)) = _
  rw [Edit.applyAll, List.mergeSort_nil, List.foldl_nil]

/-- How the library is copied, and from where to where. -/
def plainRules : Assembly.Rules := rules (settings ["lib"]) []

def home : Path := ⟨.slash, ["p"]⟩

def away : Path := ⟨.slash, ["lib", "core"]⟩

theorem gives_short {d : Disk} {source target : Path} {name : Text} {cs : List Char}
    (hcs : cs = [] ∨ cs = [';']) (hread : d.read (source / name) = .ok (Utf8.encode cs)) :
    Gives (Assembly.Task.step plainRules (.redirect source target name)) d
      { tasks := [.write (target / name) (Utf8.encode cs)] } d :=
  Assembly.gives_redirect hread (Assembly.Rules.redirected?_of_chars [] (Utf8.decode?_encode _)
    (redirects_short rfl hcs _ _) (Utf8.decode?_encode _))

/-- The directory in the library comes last. -/
theorem copies_inner : Gives (Assembly.rounds plainRules 16379
      [.classify (home / ("main" : Text)) (away / ("main" : Text)) "index.ts"]) (sources 5)
        ⟨1, 0, 0⟩ (sources 6) := by
  have hfile :
      (sources 5).isDirectory? (home / ("main" : Text) / ("index.ts" : Text)) = .ok false := rfl
  have hread : (sources 5).read (home / ("main" : Text) / ("index.ts" : Text)) =
    .ok (Utf8.encode [';']) := rfl
  have hwrite :
      (sources 5).writeFile (away / ("main" : Text) / ("index.ts" : Text)) (Utf8.encode [';']) =
        (sources 6, none) := rfl
  have hwritten :=
    Assembly.gives_round (n := 16376) (r := plainRules) (Assembly.gives_write hwrite) rfl
    (Assembly.gives_rounds_nil _) rfl
  have hredirected := Assembly.gives_round (gives_short (Or.inr rfl) hread) rfl hwritten rfl
  exact Assembly.gives_round (Assembly.gives_classify_source _ hfile (by decide)) rfl
    hredirected rfl

theorem copies_sources : Gives (Assembly.copyTree plainRules home away) (sources 0)
    ⟨3, 0, 0⟩ (sources 6) := by
  have hsort : Text.sort ["index.ts", "main", "main.ts"] = ["index.ts", "main", "main.ts"] :=
    Text.sort_of_sorted (by decide)
  have hlist : (sources 2).list home = .ok ["index.ts", "main", "main.ts"] :=
    congrArg Except.ok hsort
  have hsort' : Text.sort ["index.ts"] = ["index.ts"] :=
    Text.sort_of_sorted (List.pairwise_singleton _ _)
  have hlist' : (sources 4).list (home / ("main" : Text)) = .ok ["index.ts"] :=
    congrArg Except.ok hsort'
  have hindex : (sources 2).isDirectory? (home / ("index.ts" : Text)) = .ok false := rfl
  have hmain : (sources 2).isDirectory? (home / ("main" : Text)) = .ok true := rfl
  have hmain' : (sources 2).isDirectory? (home / ("main.ts" : Text)) = .ok false := rfl
  have hread : (sources 2).read (home / ("index.ts" : Text)) = .ok (Utf8.encode [';']) := rfl
  have hread' : (sources 3).read (home / ("main.ts" : Text)) = .ok (Utf8.encode []) := rfl
  have hmake : (sources 0).makeDirectories away = (sources 2, none) := rfl
  have hmake' : (sources 2).makeDirectories (away / ("main" : Text)) = (sources 3, none) := rfl
  have hwrite : (sources 3).writeFile (away / ("index.ts" : Text)) (Utf8.encode [';']) =
    (sources 4, none) := rfl
  have hwrite' :
      (sources 4).writeFile (away / ("main.ts" : Text)) (Utf8.encode []) = (sources 5, none) := rfl
  have hwritten := Assembly.gives_rounds (n := 16379) (r := plainRules)
    ((Assembly.gives_write hwrite).mapM_cons
      ((Assembly.gives_list (away / ("main" : Text)) hlist').mapM_cons
      ((Assembly.gives_write hwrite').mapM_cons gives_mapM_nil))) rfl copies_inner rfl
  have hredirected := Assembly.gives_rounds ((gives_short (Or.inr rfl) hread).mapM_cons
    ((Assembly.gives_make hmake').mapM_cons
      ((@gives_short _ _ away _ _ (Or.inl rfl) hread').mapM_cons gives_mapM_nil))) rfl hwritten rfl
  have hclassified := Assembly.gives_rounds
    ((Assembly.gives_classify_source away hindex (by decide)).mapM_cons
      ((Assembly.gives_classify_directory away hmain).mapM_cons
        ((Assembly.gives_classify_source away hmain' (by decide)).mapM_cons gives_mapM_nil)))
    rfl hredirected rfl
  have hlisted := Assembly.gives_round (Assembly.gives_list away hlist) rfl hclassified rfl
  exact Assembly.gives_round (Assembly.gives_make hmake) rfl hlisted rfl

/-- The library, assembled: the entry point stands where a source has been copied to. -/
def assembled (entry : Bytes) : Disk where
  entries := sourceEntries.take 8 ++
    ([(["lib", "core", "main.ts"], .file []), (["lib", "core", "main", "index.ts"], .file [59]),
      (["lib", "core", "index.ts"], .file entry)] : List (Place × Entry))
  cwd := []
  tag := "t"

theorem writes_entry (entry : Bytes) : (sources 6).writeFile (away / Emission.indexName) entry =
    (assembled entry, none) := rfl

theorem assembles_sources {types : Text} (h : (Glue.entryPoint {} (typed types)).IsChars) :
    Gives (assemble (settings ["lib"]) plainRules none (typed types)) (sources 0) ⟨3, 0, 0⟩
      (assembled (bytesOf (Glue.entryPoint {} (typed types)))) := by
  have hentry : Gives (Emission.entryPoint ⟨.slash, ["lib"]⟩ (typed types)) (sources 6) _
      (assembled (bytesOf (Glue.entryPoint {} (typed types)))) := gives_put h (writes_entry _)
  exact gives_assemble_root rfl copies_sources hentry

theorem isResolved_lib : (settings ["lib"]).IsResolved := isResolved_settings (by decide)

theorem isResolved_home : home.IsResolved := ⟨rfl, by decide⟩

/-- Nothing stands where the library goes. -/
theorem sources_empty (q : Place) (hq : away.parts <+: q) : (sources 0).entryAt? q = none := by
  have hkeys : ∀ k ∈ (sources 0).entries.map Prod.fst, ¬ away.parts <+: k := by decide
  have hne : q ≠ [] := by
    rintro rfl
    exact absurd (List.prefix_nil.mp hq) (by decide)
  by_contra h
  rw [entryAt?_of_ne hne] at h
  exact hkeys q (mem_keys_iff.mpr (Option.isSome_iff_ne_none.mpr h)) hq

theorem keepsFile_sources (types : Text) {file : Text}
    (h : file ∈ (["index.ts", "main.ts", "main/index.ts"] : List Text)) :
    ((settings ["lib"]).mirror [] (sources 0) (typed types)).KeepsFile (Path.partsOf file) := by
  have hkeeps : ∀ file ∈ (["index.ts", "main.ts", "main/index.ts"] : List Text),
      plainRules.keeps (sources 0) ["p"] (Path.partsOf file) = true := by decide
  refine ⟨hkeeps file h, ?_⟩
  simp only [List.mem_cons, List.not_mem_nil, or_false] at h
  rcases h with rfl | rfl | rfl <;> exact ⟨_, rfl⟩

/-- The library is assembled, whatever its types. -/
theorem assembled_sources {stem : Text}
    (hchars : (Glue.entryPoint {} (typed (stem ++ ".d.ts"))).IsChars)
    (hfile : (stem ++ ".ts" : Text) ∈ (["index.ts", "main.ts", "main/index.ts"] : List Text)) :
    ∃ j, Assembled (settings ["lib"]) [] none (typed (stem ++ ".d.ts")) ⟨sources 0, []⟩ ⟨3, 0, 0⟩
      ⟨assembled (bytesOf (Glue.entryPoint {} (typed (stem ++ ".d.ts")))), j⟩ (stem ++ ".ts") := by
  obtain ⟨j, hj⟩ := assembles_sources hchars []
  have hshort : Text.IsPlain "core" := by decide
  have hapart : Place.Unrelated ["lib", "core"] ["p"] := by decide
  exact ⟨j, isResolved_lib, hshort, isResolved_home, isFileTree_sources, hapart, sources_empty, hj,
    Or.inr ⟨stem, rfl, rfl⟩, keepsFile_sources _ hfile⟩

end Sample

theorem assemble_exports_sample : ∃ u', Assembled (Sample.settings ["lib"])
    [] none (Sample.typed "main.d.ts")
      ⟨Sample.sources 0, []⟩ ⟨3, 0, 0⟩ u' "main.ts" ∧
    u'.disk.entryAt? ["lib", "core", "index.ts"] = Entry.ofText? (Glue.exportAll "main") ∧
    Exports (Sample.settings ["lib"]) [] (Sample.typed "main.d.ts")
      (Sample.sources 0) u'.disk "main.ts" := by
  obtain ⟨j, h⟩ := @Sample.assembled_sources "main" (by decide) (by decide)
  refine ⟨_, h, (assemble_exports h).1, (assemble_exports h).2.mpr
    ⟨by decide, by decide, fun stem hstem => ?_⟩⟩
  rcases hstem with hstem | hstem
  · exact absurd hstem (Text.append_ne_append (t := []) 3 (by decide) (by decide) (by decide))
  · exact absurd hstem (Text.append_ne_append (t := []) 5 (by decide) (by decide) (by decide))

/-- An entry point does not export the types: they are declared at the root of the library, where
the entry point is written over them and names itself; or in a directory with a module of its name
beside it, which is exported in their place. -/
theorem assemble_shadows :
    (∃ s libraries uber l u c, ∃ u' : World, ∃ file, Assembled s libraries uber l u c u' file ∧
      u'.disk.module? (s.directory l).parts (Suffix.entryModule l.manifest.types) =
        some ((s.directory l).parts ++ [Emission.indexName])) ∧
    ∃ s libraries uber l u c, ∃ u' : World, ∃ file, Assembled s libraries uber l u c u' file ∧
      ∃ y bytes bytes', u'.disk.module? (s.directory l).parts
          (Suffix.entryModule l.manifest.types) =
          some ((s.directory l).parts ++ y) ∧ y ≠ [Emission.indexName] ∧
        u'.disk.entryAt? ((s.directory l).parts ++ y) = some (.file bytes) ∧
        u'.disk.entryAt? ((s.directory l).parts ++ Path.partsOf file) = some (.file bytes') ∧
        bytes ≠ bytes' := by
  obtain ⟨j, hroot⟩ := @Sample.assembled_sources "index" (by decide) (by decide)
  obtain ⟨j', hbeside⟩ := @Sample.assembled_sources "main/index" (by decide) (by decide)
  exact ⟨⟨_, _, _, _, _, _, _, _, hroot, rfl⟩,
    ⟨_, _, _, _, _, _, _, _, hbeside, ["main.ts"], [], [59], rfl, by decide, rfl, rfl, by decide⟩⟩

end Build

end UberPackage
