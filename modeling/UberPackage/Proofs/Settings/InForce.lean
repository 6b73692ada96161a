/-
  Values that are in force.

  Each key of the file of settings is of one of four kinds (`Settings.Key`).  A value of it is in
  force (`Key.InForce`), or it is passed over without a word (`Key.PassesOver`), or the settings are
  refused.  Which of these is told by `Settings.load_heeds`, for every value that a file can have; a
  file that holds something else than a mapping is refused unless it counts as false.
  `Settings.load_ignores` has the two gaps: an empty list in place of the mapping, and a list in
  place of a path.
-/
import UberPackage.Proofs.Act.Failure
import UberPackage.Proofs.Settings

namespace UberPackage.Settings

open Yaml (Value)

/-! ## Keys -/

/-- A key whose value is a path. -/
inductive PathKey where
  | librariesRoot | workspace | manifest | outputDir
deriving DecidableEq, Inhabited, Repr

namespace PathKey

def name : PathKey → Text
  | librariesRoot => "libraries_root"
  | workspace => "workspace"
  | manifest => "manifest"
  | outputDir => "output_dir"

/-- What the settings have for the key. -/
def field (s : Settings) : PathKey → Path
  | librariesRoot => s.librariesRoot
  | workspace => s.workspacePath
  | manifest => s.manifestPath
  | outputDir => s.outputDir

end PathKey

/-- A key whose value is a text. -/
inductive TextKey where
  | scope | rootLibrary | modulePrefix
deriving DecidableEq, Inhabited, Repr

namespace TextKey

def name : TextKey → Text
  | scope => "scope"
  | rootLibrary => "root_library"
  | modulePrefix => "python_module_prefix"

/-- What the settings have for the key. -/
def field (s : Settings) : TextKey → Text
  | scope => s.scope
  | rootLibrary => s.rootLibrary
  | modulePrefix => s.modulePrefix

end TextKey

/-- A key of the file of settings. -/
inductive Key where
  | path (k : PathKey)
  | text (k : TextKey)
  | ignored
  | strict
deriving DecidableEq, Inhabited, Repr

def Key.name : Key → Text
  | path k => k.name
  | text k => k.name
  | ignored => "ignore"
  | strict => "strict_parse"

/-- The pairs give the key the value, and that is something; of several values, the last counts. -/
def Has (ps : List (Value × Value)) (key : Text) (v : Value) : Prop :=
  v ≠ .null ∧ ∃ before after, ps = before ++ (.str key, v) :: after ∧ ∀ e ∈ after, e.1 ≠ .str key

/-- The value that a pair gives to the key. -/
def valueFor? (key : Text) (e : Value × Value) : Option Value :=
  match e.1 with
  | .str t => if t = key then some e.2 else none
  | _ => none

theorem valueFor?_eq_some {key : Text} {e : Value × Value} {v : Value} :
    valueFor? key e = some v ↔ e = (.str key, v) := by
  obtain ⟨k, u⟩ := e
  cases k with
  | str t => simp [valueFor?]
  | _ => simp [valueFor?]

theorem valueFor?_eq_none {key : Text} {e : Value × Value} : valueFor? key e = none ↔
    e.1 ≠ .str key := by
  rw [Option.eq_none_iff_forall_ne_some]
  refine ⟨fun h he => h e.2 (valueFor?_eq_some.mpr (Prod.ext he rfl)), fun h v hv => h ?_⟩
  rw [valueFor?_eq_some.mp hv]

theorem find?_eq_some {ps : List (Value × Value)} {key : Text} {v : Value} :
    find? ps key = some v ↔ Has ps key v := by
  have hnull :
      find? ps key = some v ↔ v ≠ .null ∧ ps.reverse.findSome? (valueFor? key) = some v := by
    rw [find?]
    split
    · next hfound =>
      have hfound : ps.reverse.findSome? (valueFor? key) = some .null := hfound
      rw [hfound]
      exact ⟨nofun, fun ⟨hv, h⟩ => absurd (Option.some.inj h).symm hv⟩
    · next hfound => exact ⟨fun h => ⟨fun hv => hfound (hv ▸ h), h⟩, And.right⟩
  rw [hnull, Has, List.findSome?_eq_some_iff]
  refine and_congr_right fun _ => ⟨?_, ?_⟩
  · -- the last pair with the key is the first one from the end
    rintro ⟨after, e, before, hps, he, hafter⟩
    refine ⟨before.reverse, after.reverse, ?_,
      fun x hx => valueFor?_eq_none.mp (hafter x (List.mem_reverse.mp hx))⟩
    rw [← valueFor?_eq_some.mp he, ← List.reverse_reverse ps, hps]
    simp
  · rintro ⟨before, after, rfl, hafter⟩
    refine ⟨after.reverse, (.str key, v), before.reverse,
      by simp, valueFor?_eq_some.mpr rfl, fun x hx => ?_⟩
    exact valueFor?_eq_none.mpr (hafter x (List.mem_reverse.mp hx))

/-! ## Texts of values -/

/-- The texts of strings and numbers. -/
inductive Spelled : Value → Text → Prop where
  | str (t : Text) : Spelled (.str t) t
  | int (i : Int) : Spelled (.int i) (Text.ofInt i)
  | float (x : Binary64) : Spelled (.float x) (Json.floatName x)

/-- The texts of strings, numbers and truth values. -/
inductive Named : Value → Text → Prop where
  | bool (b : Bool) : Named (.bool b) (Json.bool b).spell
  | spelled {v : Value} {t : Text} (h : Spelled v t) : Named v t

/-- The names that a value gives: one, or one for each item of a list. -/
inductive GivesNames : Value → List Text → Prop where
  | str (t : Text) : GivesNames (.str t) [t]
  | list {items : List Value} {ts : List Text} (h : List.Forall₂ Named items ts) :
      GivesNames (.list items) ts

/-- An integer that has too many digits to be written in decimal. -/
def TooLong (i : Int) : Prop := tenTo Value.integerDigits ≤ i.natAbs

theorem Spelled.unique {v : Value} {t t' : Text} (h : Spelled v t)
    (h' : Spelled v t') : t = t' := by
  cases h <;> cases h' <;> rfl

/-! ## What becomes of a value -/

/-- A path cannot have the text of the value, or it is an integer that is too long. -/
def UnusablePath (root : Path) (v : Value) : Prop :=
  (∃ i, v = .int i ∧ TooLong i) ∨
    ∃ t, t ≠ [] ∧ Spelled v t ∧
      ((root / t).nameFault? = some .nullInName ∨ (root / t).nameFault? = some .unencodableName)

namespace Key

/-- The value is what the settings have for the key; a path is seen from the directory of the
package. -/
def InForce (root : Path) (s : Settings) : Key → Value → Prop
  | path k, v => ∃ t, t ≠ [] ∧ Spelled v t ∧ k.field s = (root / t).resolve root
  | text k, v => v = .str (k.field s)
  | ignored, v => GivesNames v s.ignored
  | strict, v => v = .bool s.strict

/-- The value is no text for a path, or an empty one; or it is a list of names with an item that is
no name, or bytes, whose decimals are taken for names. -/
def PassesOver : Key → Value → Prop
  | path _, v => ∀ t, Spelled v t → t = []
  | text _, _ => False
  | ignored, v =>
    (∃ bs, v = .bytes bs) ∨ ∃ items, v = .list items ∧ ∃ item ∈ items, ∀ t, ¬ Named item t
  | strict, _ => False

/-- The value or an item of it has no text, or one that no path can have. -/
def Unusable (root : Path) : Key → Value → Prop
  | path _, v => UnusablePath root v
  | text _, _ => False
  | ignored, v => ∃ items i, v = .list items ∧ .int i ∈ items ∧ TooLong i
  | strict, _ => False

end Key

variable {root : Path} {ps : List (Value × Value)} {key : Text} {v : Value} {f : SettingsFault}

theorem text?_ok {o : Option Text} (h : text? v = .ok o) :
    (∃ t, o = some t ∧ Spelled v t) ∨ o = none ∧ ∀ t, ¬ Spelled v t := by
  cases v with
  | str t => exact Or.inl ⟨t, (Except.ok.inj h).symm, .str t⟩
  | int i =>
    obtain ⟨t, ht, rfl⟩ := except_map_eq_ok.mp h
    rw [integerText] at ht
    split at ht
    · rw [← Except.ok.inj ht]
      exact Or.inl ⟨_, rfl, .int i⟩
    · cases ht
  | float x => exact Or.inl ⟨_, (Except.ok.inj h).symm, .float x⟩
  | _ => exact Or.inr ⟨(Except.ok.inj h).symm, nofun⟩

theorem text?_error (h : text? v = .error f) : ∃ i, v = .int i ∧ TooLong i := by
  cases v with
  | int i =>
    refine ⟨i, rfl, Nat.not_lt.mp fun hlt => ?_⟩
    rw [text?, integerText, if_pos hlt] at h
    cases h
  | _ => cases h

theorem name?_ok {o : Option Text} (h : name? v = .ok o) :
    (∃ t, o = some t ∧ Named v t) ∨ o = none ∧ ∀ t, ¬ Named v t := by
  have htext : (∀ b, v ≠ .bool b) → text? v = .ok o →
      (∃ t, o = some t ∧ Named v t) ∨ o = none ∧ ∀ t, ¬ Named v t := fun hb h => by
    rcases text?_ok h with ⟨t, ho, ht⟩ | ⟨ho, hnone⟩
    · exact Or.inl ⟨t, ho, .spelled ht⟩
    · refine Or.inr ⟨ho, fun t ht => ?_⟩
      cases ht with
      | bool b => exact hb b rfl
      | spelled ht => exact hnone t ht
  cases v with
  | bool b => exact Or.inl ⟨_, (Except.ok.inj h).symm, .bool b⟩
  | _ => exact htext nofun h

theorem name?_error (h : name? v = .error f) : ∃ i, v = .int i ∧ TooLong i := by
  cases v with
  | bool b => cases h
  | _ => exact text?_error h

/-- What is wrong with the text of a path, unless it is too long for a name. -/
theorem nameFault?_of_ne_refused {p : Path} {e : FileFault} (h : ∀ s path, e ≠ .refused s path)
    (he : p.nameFault? = some e) :
    p.nameFault? = some .nullInName ∨ p.nameFault? = some .unencodableName := by
  rw [he]
  rw [Path.nameFault?] at he
  split at he
  · exact Or.inr he.symm
  · split at he
    · exact Or.inl he.symm
    · split at he
      · exact absurd (Option.some.inj he).symm (h _ _)
      · cases he

/-- A path is the one that the value spells, or the default where the value is passed over. -/
theorem path?_ok {default p : Path} (h : path? root ps key default = .ok p) (hv : Has ps key v) :
    (∃ t, t ≠ [] ∧ Spelled v t ∧ p = (root / t).resolve root) ∨
      (∀ t, Spelled v t → t = []) ∧ p = default := by
  rw [path?, find?_eq_some.mpr hv] at h
  obtain ⟨o, ho, h⟩ := except_bind_eq_ok.mp h
  rcases text?_ok ho with ⟨t, rfl, ht⟩ | ⟨rfl, hnone⟩
  · dsimp only at h
    split at h
    · next hempty => exact Or.inr ⟨fun t' ht' => ht'.unique ht ▸ hempty, (Except.ok.inj h).symm⟩
    · next hne =>
      refine Or.inl ⟨t, hne, ht, ?_⟩
      rw [pathOf] at h
      split at h
      · exact (Except.ok.inj h).symm
      · exact (Except.ok.inj h).symm
      · cases h
  · exact Or.inr ⟨fun t ht => absurd ht (hnone t), (Except.ok.inj h).symm⟩

theorem path?_error {default : Path} (h : path? root ps key default = .error f) :
    ∃ v, Has ps key v ∧ UnusablePath root v := by
  rw [path?] at h
  split at h
  · cases h
  · next v hv =>
    refine ⟨v, find?_eq_some.mp hv, ?_⟩
    rcases except_bind_eq_error.mp h with h | ⟨o, ho, h⟩
    · exact Or.inl (text?_error h)
    · rcases text?_ok ho with ⟨t, rfl, ht⟩ | ⟨rfl, -⟩
      · dsimp only at h
        split at h
        · cases h
        · next hne =>
          rw [pathOf] at h
          split at h
          · cases h
          · cases h
          · next e hrefused he => exact Or.inr ⟨t, hne, ht, nameFault?_of_ne_refused hrefused he⟩
      · cases h

theorem string_ok {default t : Text} (h : string ps key default = .ok t) (hv : Has ps key v) :
    v = .str t := by
  rw [string, find?_eq_some.mpr hv] at h
  cases v with
  | str t' => rw [Except.ok.inj h]
  | _ => cases h

theorem string_error {default : Text} (h : string ps key default = .error f) :
    Failure.isSettingsFault f = true := by
  rw [string] at h
  split at h
  · cases h
  · cases h
  · rw [← Except.error.inj h]
    rfl

theorem flag_ok {default b : Bool} (h : flag ps key default = .ok b) (hv : Has ps key v) :
    v = .bool b := by
  rw [flag, find?_eq_some.mpr hv] at h
  cases v with
  | bool b' => rw [Except.ok.inj h]
  | _ => cases h

theorem flag_error {default : Bool} (h : flag ps key default = .error f) :
    Failure.isSettingsFault f = true := by
  rw [flag] at h
  split at h
  · cases h
  · cases h
  · rw [← Except.error.inj h]
    rfl

/-- Where each item has a name, all names are kept. -/
theorem forall₂_filterMap {items : List Value} {os : List (Option Text)}
    (h : List.Forall₂ (fun item o => name? item = .ok o) items os)
    (hnamed : ∀ item ∈ items, ∃ t, Named item t) :
    List.Forall₂ Named items (os.filterMap id) := by
  induction h with
  | nil => exact .nil
  | cons ho _ ih =>
    obtain ⟨hfirst, hothers⟩ := List.forall_mem_cons.mp hnamed
    rcases name?_ok ho with ⟨t, rfl, ht⟩ | ⟨-, hnone⟩
    · exact .cons ht (ih hothers)
    · obtain ⟨t, ht⟩ := hfirst
      exact absurd ht (hnone t)

/-- Names are those of all items, unless an item has none. -/
theorem names_ok {ts : List Text} (h : names ps key = .ok ts) (hv : Has ps key v) :
    GivesNames v ts ↔ ¬ Key.ignored.PassesOver v := by
  rw [names, find?_eq_some.mpr hv] at h
  cases v with
  | str t =>
    rw [← Except.ok.inj h]
    refine iff_of_true (.str t) ?_
    rintro (⟨bs, h⟩ | ⟨items, h, -⟩) <;> cases h
  | bytes bs => exact iff_of_false nofun (not_not.mpr (Or.inl ⟨bs, rfl⟩))
  | list items =>
    obtain ⟨os, hos, h⟩ := except_bind_eq_ok.mp h
    rw [← Except.ok.inj h]
    have hlist : GivesNames (.list items) (os.filterMap id) ↔
        ∀ item ∈ items, ∃ t, Named item t := by
      refine ⟨fun h => ?_, fun h => .list (forall₂_filterMap (forall₂_of_mapM hos) h)⟩
      cases h with
      | list h => exact exists_forall₂_iff.mp ⟨_, h⟩
    rw [hlist]
    constructor
    · rintro hnamed (⟨bs, heq⟩ | ⟨items', heq, item, hm, hnone⟩) <;> cases heq
      obtain ⟨t, ht⟩ := hnamed item hm
      exact hnone t ht
    · intro hkept item hm
      by_contra hnone
      exact hkept (Or.inr ⟨items, rfl, item, hm, fun t ht => hnone ⟨t, ht⟩⟩)
  | _ => cases h

theorem names_error (h : names ps key = .error f) :
    Failure.isSettingsFault f = true ∨ ∃ v, Has ps key v ∧ Key.ignored.Unusable root v := by
  rw [names] at h
  split at h
  · cases h
  · cases h
  · next items hv =>
    refine Or.inr ⟨_, find?_eq_some.mp hv, ?_⟩
    rcases except_bind_eq_error.mp h with h | ⟨_, -, h⟩
    · obtain ⟨item, hm, h⟩ := mapM_error h
      obtain ⟨i, rfl, hi⟩ := name?_error h
      exact ⟨items, i, rfl, hm, hi⟩
    · cases h
  · cases h
  · rw [← Except.error.inj h]
    exact Or.inl rfl

/-! ## All keys -/

/-- The value of a key is in force unless it is passed over. -/
theorem inForce_iff {s : Settings} (h : ofPairs root ps = .ok s) {k : Key} (hv : Has ps k.name v) :
    k.InForce root s v ↔ ¬ k.PassesOver v := by
  simp only [ofPairs, except_bind_eq_ok] at h
  obtain ⟨l, hl, w, hw, m, hm, o, ho, c, hc, r, hr, x, hx, ns, hns, b, hb, h⟩ := h
  rw [← Except.ok.inj h]
  have hpath : ∀ {default p : Path} {key : Text}, path? root ps key default = .ok p → Has ps key v →
      ((∃ t, t ≠ [] ∧ Spelled v t ∧ p = (root / t).resolve root) ↔ ¬ ∀ t, Spelled v t → t = []) :=
    fun hp hv => by
      rcases path?_ok hp hv with ⟨t, hne, ht, hp⟩ | ⟨hempty, -⟩
      · exact iff_of_true ⟨t, hne, ht, hp⟩ fun hempty => hne (hempty t ht)
      · refine iff_of_false ?_ (not_not.mpr hempty)
        rintro ⟨t, hne, ht, -⟩
        exact hne (hempty t ht)
  cases k with
  | path k =>
    cases k with
    | librariesRoot => exact hpath hl hv
    | workspace => exact hpath hw hv
    | manifest => exact hpath hm hv
    | outputDir => exact hpath ho hv
  | text k =>
    cases k with
    | scope => exact iff_of_true (string_ok hc hv) not_false
    | rootLibrary => exact iff_of_true (string_ok hr hv) not_false
    | modulePrefix => exact iff_of_true (string_ok hx hv) not_false
  | ignored => exact names_ok hns hv
  | strict => exact iff_of_true (flag_ok hb hv) not_false

/-- Settings that are refused are at fault, or a value of theirs cannot be used. -/
theorem ofPairs_error (h : ofPairs root ps = .error f) :
    Failure.isSettingsFault f = true ∨ ∃ (k : Key) (v : Value), Has ps k.name v ∧
    k.Unusable root v := by
  simp only [ofPairs, except_bind_eq_error] at h
  have hpath : ∀ (k : PathKey) {default : Path}, path? root ps k.name default = .error f →
      ∃ (k : Key) (v : Value), Has ps k.name v ∧ k.Unusable root v := fun k _ h => by
    obtain ⟨v, hv, hu⟩ := path?_error h
    exact ⟨.path k, v, hv, hu⟩
  -- the keys in the order in which they are looked at
  rcases h with h | ⟨_, -, h⟩
  · exact Or.inr (hpath .librariesRoot h)
  rcases h with h | ⟨_, -, h⟩
  · exact Or.inr (hpath .workspace h)
  rcases h with h | ⟨_, -, h⟩
  · exact Or.inr (hpath .manifest h)
  rcases h with h | ⟨_, -, h⟩
  · exact Or.inr (hpath .outputDir h)
  rcases h with h | ⟨_, -, h⟩
  · exact Or.inl (string_error h)
  rcases h with h | ⟨_, -, h⟩
  · exact Or.inl (string_error h)
  rcases h with h | ⟨_, -, h⟩
  · exact Or.inl (string_error h)
  rcases h with h | ⟨_, -, h⟩
  · rcases names_error h with hf | ⟨v, hv, hu⟩
    · exact Or.inl hf
    · exact Or.inr ⟨.ignored, v, hv, hu⟩
  rcases h with h | ⟨_, -, h⟩
  · exact Or.inl (flag_error h)
  · cases h

theorem ofValue_mapping (root : Path) (ps : List (Value × Value)) :
    ofValue root (.mapping ps) = ofPairs root ps := by
  cases ps with
  | nil => rfl
  | cons e ps => rfl

/-- What counts as false changes nothing. -/
theorem ofValue_of_falsy (h : v.truthy = false) : ofValue root v = .ok (defaults root) := by
  unfold ofValue
  rw [h]
  rfl

theorem ofValue_of_truthy (h : v.truthy = true) (hv : ∀ ps, v ≠ .mapping ps) :
    ofValue root v = .error .noMapping := by
  unfold ofValue
  rw [h]
  cases v with
  | mapping ps => exact absurd rfl (hv ps)
  | _ => rfl

/-! ## A file of settings -/

/-- The file of settings is not blank, and holds the value. -/
structure Given (homes : Homes) (w : World) (p file : Path) (v : Value) : Prop where
  located : Act.Does (locate p homes) w file w
  exists? : w.disk.exists? file = .ok true
  text : ∃ t, Act.Does (Act.readText file) w t w ∧
    ¬ (t.display.toList.all fun c => Code.isBlank (.char c)) = true ∧
    Value.read t.display.toList = .ok v

namespace Given

variable {homes : Homes} {w : World} {p file : Path}

/-- With a value in the file, loading settings gives what the value gives. -/
theorem runIn_load (h : Given homes w p file v) :
    (load p homes).runIn w = (Act.orFail .settings (ofValue file.parent v)).runIn w := by
  obtain ⟨t, hread, hblank, hvalue⟩ := h.text
  have htext : ofText file.parent file.name t.display.toList = ofValue file.parent v := by
    rw [ofText, if_neg hblank, hvalue]
  rw [load, h.located.runIn_bind, (Act.does_ask.mpr ⟨h.exists?, rfl⟩).runIn_bind, if_pos rfl,
    hread.runIn_bind]
  show (Act.orFail .settings (ofText file.parent file.name t.display.toList)).runIn w = _
  rw [htext]

theorem does {s : Settings} (h : Given homes w p file v) (hs : ofValue file.parent v = .ok s) :
    Act.Does (load p homes) w s w :=
  h.runIn_load.trans (Act.does_orFail.mpr ⟨hs, rfl⟩)

theorem fails (h : Given homes w p file v) (hf : ofValue file.parent v = .error f) :
    Act.Fails (load p homes) w (.settings f) w :=
  h.runIn_load.trans (Act.fails_orFail.mpr ⟨⟨f, hf, rfl⟩, rfl⟩)

end Given

/-- **Which values of a file of settings are in force.** A value that is no mapping is refused
exactly if it counts as true.  Of a mapping, either all values are in force but for those that are
passed over, or the settings are refused, as settings that are at fault unless a value cannot be
used. -/
theorem load_heeds {homes : Homes} {w : World} {p file : Path} {v : Value}
    (h : Given homes w p file v) :
    ((∀ ps, v ≠ .mapping ps) → (Act.Fails (load p homes) w (.settings .noMapping) w ↔
      v.truthy = true)) ∧
    ∀ ps, v = .mapping ps →
      (∃ s, Act.Does (load p homes) w s w ∧ ∀ (k : Key) (value : Value), Has ps k.name value →
        (k.InForce file.parent s value ↔ ¬ k.PassesOver value)) ∨
      ∃ e, Act.Fails (load p homes) w (.settings e) w ∧ (Failure.isSettingsFault e = true ∨
        ∃ (k : Key) (value : Value), Has ps k.name value ∧ k.Unusable file.parent value) := by
  refine ⟨fun hv => ⟨fun hf => ?_, fun ht => h.fails (ofValue_of_truthy ht hv)⟩, ?_⟩
  · by_contra ht
    exact (h.does (ofValue_of_falsy (Bool.not_eq_true _ ▸ ht))).not_fails hf
  · rintro ps rfl
    cases hps : ofPairs file.parent ps with
    | ok s =>
      exact Or.inl ⟨s, h.does ((ofValue_mapping _ _).trans hps), fun k value => inForce_iff hps⟩
    | error e => exact Or.inr ⟨e, h.fails ((ofValue_mapping _ _).trans hps), ofPairs_error hps⟩

namespace InForce.Sample

def package : Path := ⟨.slash, ["u"]⟩

def file : Path := ⟨.slash, ["u", ".ubergen.yml"]⟩

/-- A package with a file of settings. -/
def world (text : String) : World :=
  { disk := ⟨[(["u"], .dir), (["u", ".ubergen.yml"], .file (Utf8.encode text.toList))], [], "t"⟩ }

theorem toList_display (text : String) : (Text.ofString text).display.toList = text.toList := by
  rw [Text.display, String.toList_ofList, Text.ofString, List.map_map]
  exact List.map_id _

theorem given {text : String} {v : Value}
    (hfile : (world text).disk.exists? file = .ok true ∧
      Act.Does (Act.readText file) (world text) text (world text))
    (hblank : ¬ (text.toList.all fun c => Code.isBlank (.char c)) = true)
    (hvalue : Value.read text.toList = .ok v) : Given {} (world text) package file v where
  located := rfl
  exists? := hfile.1
  text := ⟨text, hfile.2, by rwa [toList_display], by rwa [toList_display]⟩

theorem given_text : Given {} (world "m") package file (.str "m") :=
  given ⟨rfl, rfl⟩ (by decide) rfl

theorem read_name :
    Value.read "manifest: m".toList = .ok (.mapping [(.str "manifest", .str "m")]) := by
  have hdocument : Yaml.Node.document? "manifest: m".toList =
      .ok (some (.mapping .mapping [(.scalar .str "manifest", .scalar .str "m")])) := rfl
  rw [Value.read, if_neg (by decide), hdocument]
  rfl

theorem given_name :
    Given {} (world "manifest: m") package file (.mapping [(.str "manifest", .str "m")]) :=
  given ⟨rfl, rfl⟩ (by decide) read_name

theorem given_empty : Given {} (world "[]") package file (.list []) :=
  given ⟨rfl, rfl⟩ (by decide) rfl

theorem given_noPath :
    Given {} (world "manifest: []") package file (.mapping [(.str "manifest", .list [])]) :=
  given ⟨rfl, rfl⟩ (by decide) rfl

theorem has_of_single {key : Text} {v : Value} (hv : v ≠ .null) : Has [(.str key, v)] key v :=
  ⟨hv, [], [], rfl, nofun⟩

end InForce.Sample

open InForce.Sample in
theorem load_heeds_sample :
    Act.Fails (load package) (world "m") (.settings .noMapping) (world "m") ∧
    ∃ s, Act.Does (load package) (world "manifest: m") s (world "manifest: m") ∧
      (Key.path .manifest).InForce package s (.str "m") := by
  refine ⟨((load_heeds given_text).1 nofun).mpr rfl, ?_⟩
  rcases (load_heeds given_name).2 _ rfl with ⟨s, hs, hforce⟩ | ⟨e, he, -⟩
  · have hm : Has [(.str "manifest", .str "m")] (Key.path .manifest).name (.str "m") :=
      has_of_single nofun
    refine ⟨s, hs, (hforce (.path .manifest) _ hm).mpr fun hempty => ?_⟩
    exact absurd (hempty "m" (.str "m")) (by decide)
  · exact absurd he (given_name.does rfl).not_fails

open InForce.Sample in
/-- An empty list in place of the mapping is not refused, and a list in place of a path is neither
refused nor in force: the settings are those of a package without a file of settings. -/
theorem load_ignores :
    (Given {} (world "[]") package file (.list []) ∧
      Act.Does (load package) (world "[]") (defaults package) (world "[]")) ∧
    Given {} (world "manifest: []") package file (.mapping [(.str "manifest", .list [])]) ∧
      Has [(.str "manifest", .list [])] (Key.path .manifest).name (.list []) ∧
      Act.Does (load package) (world "manifest: []") (defaults package) (world "manifest: []") ∧
      ¬ (Key.path .manifest).InForce package (defaults package) (.list []) :=
  ⟨⟨given_empty, given_empty.does rfl⟩, given_noPath, has_of_single nofun, given_noPath.does rfl,
    fun ⟨_, _, ht, _⟩ => by cases ht⟩

end UberPackage.Settings
