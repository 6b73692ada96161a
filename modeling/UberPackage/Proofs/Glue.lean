/-
  What the index of the merged tree exports.

  The index is made of one statement for each library, in order (`Glue.index_eq`).  If no short name
  holds a line feed, each statement is a line, and reading the lines gives the exports back
  (`Glue.exportsIn_index`).

  A namespace name is made of units that can stand in identifiers.  It stands for all short names
  that are alike (`Text.Alike`): of the same length, with the same unit or with two that become
  underscores at each place (`namespaceName_eq_iff`).  So libraries whose short names are alike
  share a namespace name, and no others do.  `Glue.index_exports` puts this together.
-/
import Mathlib.Data.List.Forall2
import UberPackage.Glue
import UberPackage.Proofs.Layout
import UberPackage.Proofs.Suffix

namespace UberPackage

/-! ## Namespace names -/

/-- The unit becomes an underscore in a namespace name, or is one. -/
def Code.IsBlurred (c : Code) : Prop := isIdentifierUnit c = false ∨ c = .char '_'

/-- Units that a namespace name does not tell apart. -/
def Code.Alike (x y : Code) : Prop := x = y ∨ x.IsBlurred ∧ y.IsBlurred

/-- Texts of the same length whose units are alike at each place. -/
def Text.Alike (s t : Text) : Prop := List.Forall₂ Code.Alike s t

/-- The unit is a digit. -/
def Code.isDigit : Code → Bool
  | .char c => c.isDigit
  | .half _ => false

/-- A letter, an underscore or a dollar sign, and then these or digits. -/
def Text.IsIdentifier (t : Text) : Prop :=
  ∃ c rest, t = c :: rest ∧ c.isDigit = false ∧ ∀ x ∈ t, isIdentifierUnit x = true

instance (c : Code) : Decidable c.IsBlurred := inferInstanceAs (Decidable (_ ∨ _))

instance (x y : Code) : Decidable (Code.Alike x y) := inferInstanceAs (Decidable (_ ∨ _))

/-- The unit as it stands in a namespace name. -/
def Code.inNamespace (c : Code) : Code := if isIdentifierUnit c then c else .char '_'

theorem Code.inNamespace_of_isBlurred {c : Code} (h : c.IsBlurred) : c.inNamespace = .char '_' := by
  rw [inNamespace]
  rcases h with h | rfl
  · rw [h, if_neg Bool.false_ne_true]
  · rfl

theorem Code.inNamespace_of_not_isBlurred {c : Code} (h : ¬ c.IsBlurred) :
    c.inNamespace = c ∧ c ≠ .char '_' := by
  have hunit : isIdentifierUnit c = true := Bool.of_not_eq_false fun hc => h (Or.inl hc)
  exact ⟨if_pos hunit, fun hc => h (Or.inr hc)⟩

theorem Code.inNamespace_eq_iff (x y : Code) : x.inNamespace = y.inNamespace ↔ x.Alike y := by
  constructor
  · intro h
    by_cases hx : x.IsBlurred
    · by_cases hy : y.IsBlurred
      · exact Or.inr ⟨hx, hy⟩
      · obtain ⟨hyy, hne⟩ := inNamespace_of_not_isBlurred hy
        rw [inNamespace_of_isBlurred hx, hyy] at h
        exact absurd h.symm hne
    · obtain ⟨hxx, hne⟩ := inNamespace_of_not_isBlurred hx
      rw [hxx] at h
      by_cases hy : y.IsBlurred
      · exact absurd (h.trans (inNamespace_of_isBlurred hy)) hne
      · exact Or.inl (h.trans (inNamespace_of_not_isBlurred hy).1)
  · rintro (rfl | ⟨hx, hy⟩)
    · rfl
    · rw [inNamespace_of_isBlurred hx, inNamespace_of_isBlurred hy]

theorem isIdentifierUnit_inNamespace (c : Code) : isIdentifierUnit c.inNamespace = true := by
  rw [Code.inNamespace]
  split
  · next h => exact h
  · rfl

theorem namespaceName_eq_map (t : Text) : namespaceName t = t.map Code.inNamespace := rfl

/-- **Two short names share a namespace name exactly if they are alike.** -/
theorem namespaceName_eq_iff (s t : Text) : namespaceName s = namespaceName t ↔ s.Alike t := by
  rw [namespaceName_eq_map, namespaceName_eq_map, ← List.forall₂_eq_eq_eq,
    List.forall₂_map_left_iff,
    List.forall₂_map_right_iff, Text.Alike]
  simp only [Code.inNamespace_eq_iff]

theorem isIdentifierUnit_of_mem_namespaceName {t : Text} {c : Code} (h : c ∈ namespaceName t) :
    isIdentifierUnit c = true := by
  obtain ⟨x, -, rfl⟩ := List.mem_map.mp h
  exact isIdentifierUnit_inNamespace x

/-- A short name that is not empty and does not begin with a digit has an identifier for its
namespace name. -/
theorem isIdentifier_namespaceName {c : Code} {rest : Text} (h : c.isDigit = false) :
    (namespaceName (c :: rest)).IsIdentifier := by
  refine ⟨c.inNamespace, namespaceName rest, rfl, ?_,
    fun x hx => isIdentifierUnit_of_mem_namespaceName hx⟩
  rw [Code.inNamespace]
  split
  · exact h
  · rfl

namespace Glue

/-! ## Exports -/

/-- What a line of the index exports. -/
inductive Export where
  /-- All of a module. -/
  | all (module : Text)
  /-- All of a module, under a name. -/
  | under (name module : Text)
deriving DecidableEq

namespace Export

/-- The export as a statement. -/
def statement : Export → Text
  | all module => "export * from './" ++ module ++ "';"
  | under name module => "export * as " ++ name ++ " from './" ++ module ++ "';"

/-- The statement on a line of its own. -/
def line (e : Export) : Text := e.statement ++ "\n"

/-- The name that an export brings. -/
def name? : Export → Option Text
  | all _ => none
  | under name _ => some name

/-- The export that a statement makes. -/
def read? (t : Text) : Option Export :=
  match Text.after? "export * from './" t with
  | some rest => all <$> Text.before? "';" rest
  | none => do
    let rest ← Text.after? "export * as " t
    let name := rest.takeWhile (· != .char ' ')
    let module ← Text.after? " from './" (rest.drop name.length)
    under name <$> Text.before? "';" module

/-- A name ends where the first blank stands. -/
theorem takeWhile_name {name : Text} (h : ∀ c ∈ name, isIdentifierUnit c = true) (rest : Text) :
    (name ++ Code.char ' ' :: rest).takeWhile (· != .char ' ') = name := by
  rw [List.takeWhile_append_of_pos fun c hc => ?_, List.takeWhile_cons_of_neg (by simp),
    List.append_nil]
  have hunit := h c hc
  exact bne_iff_ne.mpr fun hspace => by
    rw [hspace] at hunit
    cases hunit

/-- A statement tells what it exports, if it has an identifier for a name. -/
theorem read?_statement (e : Export)
    (h : ∀ n, e.name? = some n → ∀ c ∈ n, isIdentifierUnit c = true) :
    read? e.statement = some e := by
  cases e with
  | all module =>
    rw [read?, statement, List.append_assoc, Text.after?_append]
    exact congrArg (all <$> ·) (Text.before?_ending module "';")
  | under name module =>
    have hstatement : (under name module).statement =
        Text.ofString "export * as " ++
          (name ++ (Text.ofString " from './" ++ (module ++ Text.ofString "';"))) := by
      simp only [statement, List.append_assoc]
    have hname : (name ++ (Text.ofString " from './" ++ (module ++ Text.ofString "';"))).takeWhile
        (· != .char ' ') = name :=
      takeWhile_name (h name rfl) (Text.ofString "from './" ++ (module ++ Text.ofString "';"))
    rw [hstatement, read?]
    -- what follows the star tells the two kinds of statement apart
    rw [show Text.after? "export * from './" (Text.ofString "export * as " ++
      (name ++ (Text.ofString " from './" ++ (module ++ Text.ofString "';")))) = none from rfl]
    simp only [Text.after?_append, Option.bind_eq_bind, Option.bind_some, hname, List.drop_left,
      Text.before?_ending, Option.map_eq_map, Option.map_some]

end Export

/-- What the index exports of a library. -/
def exportOf (rootLibrary : Text) (l : Library) : Export :=
  if l.shortName = rootLibrary then .all l.shortName
  else .under (namespaceName l.shortName) l.shortName

/-- What the lines of a text export, if all of them do. -/
def exportsIn (t : Text) : Option (List Export) := (t.splitOn '\n').dropLast.mapM Export.read?

/-- The names that exports bring. -/
def namesOf (es : List Export) : List Text := es.filterMap Export.name?

variable {rootLibrary : Text} {ls : List Library} {l : Library}

theorem indexLine_eq (rootLibrary : Text) (l : Library) :
    indexLine rootLibrary l = (exportOf rootLibrary l).line := by
  rw [indexLine, exportOf, Export.line]
  split
  · simp only [exportAll, Export.statement, List.append_assoc]
    rfl
  · simp only [exportAs, Export.statement, List.append_assoc]
    rfl

theorem index_eq (rootLibrary : Text) (ls : List Library) :
    index {} rootLibrary ls = ls.flatMap fun l => (exportOf rootLibrary l).line :=
  congrArg (ls.flatMap ·) (funext fun l => indexLine_eq rootLibrary l)

theorem splitOn_lines {es : List Export} (h : ∀ e ∈ es, Code.char '\n' ∉ e.statement) :
    Text.splitOn '\n' (es.flatMap Export.line) = es.map Export.statement ++ [[]] := by
  induction es with
  | nil => rfl
  | cons e es ih =>
    have hsplit :
        (e :: es).flatMap Export.line = e.statement ++ .char '\n' :: es.flatMap Export.line := by
      rw [List.flatMap_cons, Export.line, List.append_assoc]
      rfl
    rw [hsplit, Text.splitOn_append, Text.splitOn_of_not_mem (h e List.mem_cons_self),
      ih fun e' he' => h e' (List.mem_cons_of_mem e he')]
    rfl

theorem isIdentifierUnit_of_name? {n : Text} (h : (exportOf rootLibrary l).name? = some n) :
    ∀ c ∈ n, isIdentifierUnit c = true := by
  rw [exportOf] at h
  split at h
  · cases h
  · rw [← Option.some.inj h]
    exact fun c hc => isIdentifierUnit_of_mem_namespaceName hc

/-- A statement holds no line feed that its library's short name does not hold. -/
theorem no_line_feed_statement (h : Code.char '\n' ∉ l.shortName) :
    Code.char '\n' ∉ (exportOf rootLibrary l).statement := by
  have hname : Code.char '\n' ∉ namespaceName l.shortName := fun hm => by
    cases isIdentifierUnit_of_mem_namespaceName hm
  rw [exportOf]
  split
  · simp only [Export.statement, List.mem_append, not_or]
    exact ⟨⟨by decide, h⟩, by decide⟩
  · simp only [Export.statement, List.mem_append, not_or]
    exact ⟨⟨⟨⟨by decide, hname⟩, by decide⟩, h⟩, by decide⟩

theorem splitOn_index (h : ∀ l ∈ ls, Code.char '\n' ∉ l.shortName) :
    (index {} rootLibrary ls).splitOn '\n' =
      (ls.map (exportOf rootLibrary)).map Export.statement ++ [[]] := by
  rw [index_eq, ← List.flatMap_map]
  refine splitOn_lines fun e he => ?_
  obtain ⟨l, hl, rfl⟩ := List.mem_map.mp he
  exact no_line_feed_statement (h l hl)

/-- **The lines of the index give back what it exports.** -/
theorem exportsIn_index (h : ∀ l ∈ ls, Code.char '\n' ∉ l.shortName) :
    exportsIn (index {} rootLibrary ls) = some (ls.map (exportOf rootLibrary)) := by
  rw [exportsIn, splitOn_index h, List.dropLast_concat]
  clear h
  induction ls with
  | nil => rfl
  | cons l ls ih =>
    rw [List.map_cons, List.map_cons, List.mapM_cons, ih,
      Export.read?_statement _ fun n hn => isIdentifierUnit_of_name? hn]
    rfl

/-- The libraries that the index exports under a name. -/
def named (rootLibrary : Text) (ls : List Library) : List Library :=
  ls.filter fun l => l.shortName != rootLibrary

theorem namesOf_exports (rootLibrary : Text) (ls : List Library) :
    namesOf (ls.map (exportOf rootLibrary)) =
      (named rootLibrary ls).map fun l => namespaceName l.shortName := by
  rw [namesOf, named, List.filterMap_map, ← List.filterMap_eq_map, List.filterMap_filter]
  refine List.filterMap_congr fun l _ => ?_
  rw [Function.comp_apply, exportOf]
  by_cases hl : l.shortName = rootLibrary
  · rw [if_pos hl, if_neg (by simp [hl])]
    rfl
  · rw [if_neg hl, if_pos (by simp [hl])]
    rfl

theorem nodup_namesOf_iff :
    (namesOf (ls.map (exportOf rootLibrary))).Nodup ↔
      (named rootLibrary ls).Pairwise fun l l' => ¬ l.shortName.Alike l'.shortName := by
  rw [namesOf_exports, List.Nodup, List.pairwise_map]
  simp only [ne_eq, namespaceName_eq_iff]

/-- The index has a statement for each library, in order: the root library is exported as it is,
every other one under its namespace name.  If no short name holds a line feed, the statements are
the lines of the index, and reading these gives the exports back.  The namespace names are made of
the units of identifiers; they are pairwise distinct exactly if no two of the short names are alike,
and that of a short name that is not empty and does not begin with a digit is an identifier. -/
theorem index_exports (rootLibrary : Text) (ls : List Library) :
    index {} rootLibrary ls = (ls.flatMap fun l => (exportOf rootLibrary l).line) ∧
    ((∀ l ∈ ls, Code.char '\n' ∉ l.shortName) →
      (index {} rootLibrary ls).splitOn '\n' =
        (ls.map (exportOf rootLibrary)).map Export.statement ++ [[]] ∧
      exportsIn (index {} rootLibrary ls) = some (ls.map (exportOf rootLibrary))) ∧
    ((namesOf (ls.map (exportOf rootLibrary))).Nodup ↔
      (named rootLibrary ls).Pairwise fun l l' => ¬ l.shortName.Alike l'.shortName) ∧
    (∀ n ∈ namesOf (ls.map (exportOf rootLibrary)), ∀ c ∈ n, isIdentifierUnit c = true) ∧
    ∀ l ∈ named rootLibrary ls, ∀ c rest, l.shortName = c :: rest → c.isDigit = false →
      (namespaceName l.shortName).IsIdentifier := by
  refine ⟨index_eq rootLibrary ls, fun h => ⟨splitOn_index h, exportsIn_index h⟩, nodup_namesOf_iff,
    fun n hn c hc => ?_, fun l _ c rest hl hc => hl ▸ isIdentifier_namespaceName hc⟩
  rw [namesOf_exports] at hn
  obtain ⟨l, -, rfl⟩ := List.mem_map.mp hn
  exact isIdentifierUnit_of_mem_namespaceName hc

namespace Sample

/-- A library under a short name. -/
def short (n : Text) : Library := ⟨⟨[]⟩, ⟨.slash, [n]⟩, n⟩

def libraries : List Library := [short "aws-s3", short "core", short "cx.api"]

end Sample

theorem index_exports_sample :
    (∀ l ∈ Sample.libraries, Code.char '\n' ∉ l.shortName) ∧
    exportsIn (index {} "core" Sample.libraries) =
      some [.under "aws_s3" "aws-s3", .all "core", .under "cx_api" "cx.api"] ∧
    (namesOf (Sample.libraries.map (exportOf "core"))).Nodup ∧
    (namespaceName "aws-s3").IsIdentifier := by
  obtain ⟨-, hlines, hdistinct, -, hidentifier⟩ := index_exports "core" Sample.libraries
  have hfeed : ∀ l ∈ Sample.libraries, Code.char '\n' ∉ l.shortName := by decide
  have hnamed : named "core" Sample.libraries = [Sample.short "aws-s3", Sample.short "cx.api"] :=
    rfl
  refine ⟨hfeed, (hlines hfeed).2, hdistinct.mpr ?_, ?_⟩
  · rw [hnamed, List.pairwise_pair]
    -- the third units are an `s` and a dot
    rintro (_ | ⟨-, _ | ⟨h, -⟩⟩)
    revert h
    decide
  · exact hidentifier (Sample.short "aws-s3") (hnamed ▸ List.mem_cons_self)
      (.char 'a') "ws-s3" rfl rfl

/-- Short names that differ may be alike: their libraries share a namespace name. -/
theorem index_clashes : ¬ ∀ (rootLibrary : Text) (ls : List Library), (ls.map (·.shortName)).Nodup →
    (∀ l ∈ ls, l.shortName ≠ []) →
    exportsIn (index {} rootLibrary ls) = some (ls.map (exportOf rootLibrary)) ∧
      (namesOf (ls.map (exportOf rootLibrary))).Nodup ∧
      ∀ n ∈ namesOf (ls.map (exportOf rootLibrary)), n.IsIdentifier := by
  intro h
  obtain ⟨-, hnodup, -⟩ :=
    h "core" [Sample.short "aws-s3", Sample.short "aws.s3"] (by decide) (by decide)
  exact absurd hnodup (by decide)

end Glue

end UberPackage
