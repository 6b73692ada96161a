/-
  Bindings of a library, narrowed to the languages of the uber-package.

  Narrowing and strict reading (`Binding.ofTargets`) go through the same block, but narrowing looks
  at the settings of a language only if the uber-package supports it.  The first entry at fault
  (`Binding.fault?`) decides, and if there is none each entry gives its binding or nothing
  (`Binding.submodule_eq`).  So the two agree on a block that both accept, a language that is not
  supported is never at fault, and what narrowing gives can be read back
  (`Binding.submodule_agrees`).
-/
import UberPackage.Binding
import UberPackage.Proofs.Except
import UberPackage.Proofs.Json.TextKeys

namespace UberPackage

theorem Language.eq_name_of_ofName? {t : Text} {l : Language} (h : Language.ofName? t = some l) :
    t = l.name := by
  have hname := List.find?_some (p := fun l : Language => l.name == t) h
  exact (beq_iff_eq.mp hname).symm

namespace Binding

/-! ## Settings of a language -/

/-- The setting of a language, if it is a text that is not empty. -/
def setting? (l : Language) (settings : Json) : Option Text :=
  match settings.field? l.setting with
  | some (.str t) => if t = [] then none else some t
  | _ => none

theorem ofSettings_eq (l : Language) (settings : Json) :
    ofSettings l settings = match setting? l settings with
      | some t => .ok ⟨l, t⟩
      | none => .error (.incomplete l) := by
  rw [ofSettings, setting?]
  cases settings.field? l.setting with
  | none => rfl
  | some v =>
    cases v with
    | str t => cases t <;> rfl
    | null | bool | int | float | arr | obj => rfl

theorem ne_nil_of_setting? {l : Language} {settings : Json} {t : Text}
    (h : setting? l settings = some t) : t ≠ [] := by
  rw [setting?] at h
  split at h
  · split at h
    · cases h
    · next ht => exact Option.some.inj h ▸ ht
  · cases h

/-- The settings that the uber-package has for a language, unless they are null. -/
def uberSettings? (uber : Option Fields) (l : Language) : Option Json :=
  match uber.bind (Fields.get? l.name) with
  | some .null => none
  | settings => settings

/-- The uber-package supports the language. -/
def supports (uber : Option Fields) (l : Language) : Bool := (uberSettings? uber l).isSome

/-- The Python module of the uber-package. -/
def parentModule? (uber : Option Fields) : Option Text :=
  (uberSettings? uber .python).bind (setting? .python)

/-- A value as settings; what is no object has none. -/
def asSettings : Json → Json
  | .obj settings => .obj settings
  | _ => .obj []

theorem setting?_asSettings (l : Language) (v : Json) :
    setting? l (asSettings v) = setting? l v := by
  cases v <;> rfl

theorem lookup_filterMap {α β : Type} [BEq α] [LawfulBEq α] (f : α → Option β)
    (l : List α) (a : α) :
    (l.filterMap fun x => (f x).map fun b => (x, b)).lookup a =
      if l.contains a then f a else none := by
  induction l with
  | nil => rfl
  | cons x l ih =>
    rw [List.filterMap_cons, List.contains_cons]
    by_cases hx : a = x
    · subst hx
      rw [BEq.rfl, Bool.true_or, if_pos rfl]
      cases hf : f a with
      | some b => simp
      | none =>
        rw [hf] at ih
        simpa using ih
    · rw [beq_false_of_ne hx, Bool.false_or, ← ih]
      cases f x with
      | some b => simp [List.lookup_cons, beq_false_of_ne hx]
      | none => rfl

/-- The languages that are supported are those with settings. -/
theorem supported_eq (uber : Option Fields) :
    ∃ languages, supported (uber.map .obj) = .ok languages ∧
      ∀ l, languages.lookup l = (uberSettings? uber l).map asSettings := by
  cases uber with
  | none => exact ⟨[], rfl, fun l => rfl⟩
  | some fs =>
    cases fs with
    | nil => exact ⟨[], rfl, fun l => rfl⟩
    | cons f fs =>
      refine ⟨_, rfl, fun l => ?_⟩
      have hlookup := lookup_filterMap (fun l => (uberSettings? (some (f :: fs)) l).map asSettings)
        Language.all l
      have hall : Language.all.contains l = true := by cases l <;> rfl
      rw [hall, if_pos rfl] at hlookup
      rw [← hlookup]
      refine congrArg (List.lookup l) (List.filterMap_congr fun m _ => ?_)
      rw [uberSettings?, Option.bind_some]
      cases Fields.get? m.name (f :: fs) with
      | none => rfl
      | some v => cases v <;> rfl

/-! ## Entries -/

/-- What is wrong with an entry of a library's block: its language is not known, or its language is
supported and a setting is missing, its own or that of the uber-package which it needs. -/
def fault? (uber : Option Fields) (entry : Text × Json) : Option BindingFault :=
  match Language.ofName? entry.1 with
  | none => some (.unsupported entry.1)
  | some l =>
    if supports uber l && ((setting? l entry.2).isNone ||
        (l == .python && (parentModule? uber).isNone)) then some (.incomplete l)
    else none

/-- A binding as one of the uber-package: a Python module below that of the uber-package, without
the prefix if it has it, and any other binding as it is. -/
def narrowed (uber : Option Fields) (modulePrefix : Text) (b : Binding) : Binding :=
  match b.language with
  | .python =>
    ⟨.python, (parentModule? uber).getD [] ++ "." ++
      (b.value.dropPrefix? modulePrefix).getD b.value⟩
  | _ => b

/-- The binding that an entry gives, read strictly. -/
def binding? (entry : Text × Json) : Option Binding :=
  (Language.ofName? entry.1).bind fun l => (setting? l entry.2).map fun t => ⟨l, t⟩

/-- The binding that an entry gives, if its language is supported. -/
def narrow? (uber : Option Fields) (modulePrefix : Text) (entry : Text × Json) : Option Binding :=
  (Language.ofName? entry.1).bind fun l =>
    if supports uber l then (binding? entry).map (narrowed uber modulePrefix) else none

theorem withoutPrefix_eq (start name : Text) :
    withoutPrefix start name = (name.dropPrefix? start).getD name := by
  have hsome : ∀ rest, name.dropPrefix? start = some rest ↔ name = start ++ rest := fun rest => by
    rw [List.dropPrefix?_eq_some_iff]
    exact ⟨fun ⟨_, hn, hs⟩ => beq_iff_eq.mp hs ▸ hn, fun hn => ⟨start, hn, BEq.rfl⟩⟩
  rw [withoutPrefix]
  cases h : name.dropPrefix? start with
  | some rest =>
    rw [hsome] at h
    subst h
    cases start with
    | nil => rfl
    | cons c start =>
      have hbegins : (c :: start).isPrefixOf (c :: start ++ rest) = true :=
        List.isPrefixOf_iff_prefix.mpr (List.prefix_append _ _)
      have hstart : (c :: start != [] && true) = true := rfl
      rw [hbegins, if_pos hstart, List.drop_left, Option.getD_some]
  | none =>
    have hno : start.isPrefixOf name = false := Bool.eq_false_iff.mpr fun hp => by
      obtain ⟨rest, hrest⟩ := List.isPrefixOf_iff_prefix.mp hp
      rw [(hsome rest).mpr hrest.symm] at h
      cases h
    rw [hno, Bool.and_false, if_neg Bool.false_ne_true, Option.getD_none]

/-- An entry is at fault or gives its binding. -/
theorem submoduleEntry_eq {uber : Option Fields} {languages : List (Language × Json)}
    (h : ∀ l, languages.lookup l = (uberSettings? uber l).map asSettings) (modulePrefix : Text)
    (entry : Text × Json) :
    submoduleEntry languages modulePrefix entry.1 entry.2 =
      unlessFault (fault? uber entry) (narrow? uber modulePrefix entry) := by
  obtain ⟨name, settings⟩ := entry
  rw [submoduleEntry, fault?, narrow?, binding?, language!]
  cases Language.ofName? name with
  | none => rfl
  | some l =>
    have hparent : parentModule? uber = (uberSettings? uber .python).bind (setting? .python) := rfl
    have hsupports : supports uber l = (uberSettings? uber l).isSome := rfl
    rw [except_ok_bind, h l, Option.bind_some, Option.bind_some]
    dsimp only
    rw [hsupports]
    cases hu : uberSettings? uber l with
    | none => rfl
    | some v =>
      rw [Option.map_some, ofSettings_eq]
      dsimp only
      cases hs : setting? l settings with
      | none => rfl
      | some t =>
        cases l with
        | dotnet => rfl
        | java => rfl
        | python =>
          rw [hu, Option.bind_some] at hparent
          rw [except_ok_bind, ofSettings_eq, setting?_asSettings, ← hparent]
          cases hm : parentModule? uber with
          | none => rfl
          | some m =>
            rw [except_ok_bind, withoutPrefix_eq, Option.map_some, Option.isSome_some, if_pos rfl,
              Option.map_some, narrowed, hm]
            rfl

/-- The first entry at fault decides; without one, the entries of supported languages are
narrowed. -/
theorem submodule_eq (uber : Option Fields) (library : Fields) (modulePrefix : Text) :
    submodule (uber.map .obj) (some (.obj library)) modulePrefix =
      unlessFault (library.findSome? (fault? uber))
        (some (library.filterMap (narrow? uber modulePrefix))) := by
  obtain ⟨languages, hl, hlookup⟩ := supported_eq uber
  have hentries := mapM_eq_of_fault (submoduleEntry_eq hlookup modulePrefix) library
  show (supported (uber.map .obj) >>= fun languages => entries (.obj library) >>= fun fs =>
    fs.mapM (fun entry => submoduleEntry languages modulePrefix entry.1 entry.2) >>= fun found =>
    .ok (some (found.filterMap id))) = _
  rw [hl, except_ok_bind]
  show (library.mapM (fun entry => submoduleEntry languages modulePrefix entry.1 entry.2) >>=
    fun found => .ok (some (found.filterMap id))) = _
  rw [hentries]
  cases library.findSome? (fault? uber) with
  | some f => rfl
  | none =>
    rw [unlessFault, except_ok_bind, List.filterMap_map]
    rfl

/-- Narrowing succeeds if no entry is at fault. -/
theorem submodule_eq_ok {uber : Option Fields} {library : Fields} {modulePrefix : Text}
    {bs? : Option (List Binding)} :
    submodule (uber.map .obj) (some (.obj library)) modulePrefix = .ok bs? ↔
      (∀ e ∈ library, fault? uber e = none) ∧
      some (library.filterMap (narrow? uber modulePrefix)) = bs? := by
  rw [submodule_eq, ← List.findSome?_eq_none_iff]
  cases library.findSome? (fault? uber) with
  | some f => simp [unlessFault]
  | none => simp [unlessFault]

/-- Strict reading accepts a block if each entry gives a binding. -/
theorem ofTargets_eq_ok {library : Fields} {bs : List Binding} :
    ofTargets (some (.obj library)) = .ok bs ↔ library.map binding? = bs.map some := by
  have hentry : ∀ (entry : Text × Json) b,
      (language! entry.1 >>= fun l => ofSettings l entry.2) = .ok b ↔ binding? entry = some b := by
    intro entry b
    rw [language!, binding?]
    cases Language.ofName? entry.1 with
    | none => simp [bind, Except.bind]
    | some l =>
      rw [except_ok_bind, ofSettings_eq, Option.bind_some]
      cases setting? l entry.2 with
      | none => simp
      | some t => simp
  rw [← mapM_ok_iff hentry]
  cases library with
  | nil => rfl
  | cons entry library => rfl

/-! ## Both readings of a block -/

variable {uber : Option Fields} {entry : Text × Json} {l : Language}

theorem binding?_eq_some {b : Binding} (h : binding? entry = some b) :
    Language.ofName? entry.1 = some b.language ∧ setting? b.language entry.2 = some b.value := by
  rw [binding?] at h
  obtain ⟨l, hl, h⟩ := Option.bind_eq_some_iff.mp h
  obtain ⟨t, ht, rfl⟩ := Option.map_eq_some_iff.mp h
  exact ⟨hl, ht⟩

/-- What can be wrong with an entry of a known language. -/
theorem fault?_eq_some (hl : Language.ofName? entry.1 = some l) {f : BindingFault} :
    fault? uber entry = some f ↔ f = .incomplete l ∧ supports uber l = true ∧
      (setting? l entry.2 = none ∨ l = .python ∧ parentModule? uber = none) := by
  rw [fault?, hl]
  dsimp only
  rw [Option.ite_none_right_eq_some, Bool.and_eq_true, Bool.or_eq_true,
    Bool.and_eq_true, beq_iff_eq,
    Option.isNone_iff_eq_none, Option.isNone_iff_eq_none, Option.some.injEq]
  exact ⟨fun ⟨hf, he⟩ => ⟨he.symm, hf⟩, fun ⟨he, hf⟩ => ⟨hf, he.symm⟩⟩

/-- The languages that are not supported do not matter. -/
theorem pass_of_unsupported (hl : Language.ofName? entry.1 = some l) (hno : supports uber l = false)
    (modulePrefix : Text) : fault? uber entry = none ∧ narrow? uber modulePrefix entry = none := by
  constructor
  · rw [fault?, hl]
    dsimp only
    rw [hno, Bool.false_and, if_neg Bool.false_ne_true]
  · rw [narrow?, hl, Option.bind_some, hno, if_neg Bool.false_ne_true]

/-- A binding that an entry gives strictly is narrowed, or left out if its language is not
supported. -/
theorem narrow?_of_binding? {b : Binding} (h : binding? entry = some b) (modulePrefix : Text) :
    narrow? uber modulePrefix entry =
      if supports uber b.language then some (narrowed uber modulePrefix b) else none := by
  rw [narrow?, (binding?_eq_some h).1, Option.bind_some, h]
  rfl

/-- Where strict reading accepts a block, narrowing gives the bindings of supported languages,
narrowed. -/
theorem submodule_of_ofTargets {block : Fields} {bs : List Binding}
    (h : ofTargets (some (.obj block)) = .ok bs) (modulePrefix : Text)
    (hpython : Language.python.name ∈ block.keys → supports uber .python = true →
      (parentModule? uber).isSome = true) :
    submodule (uber.map .obj) (some (.obj block)) modulePrefix =
      .ok (some ((bs.filter fun b => supports uber b.language).map
        (narrowed uber modulePrefix))) := by
  rw [ofTargets_eq_ok] at h
  rw [submodule_eq_ok, Option.some.injEq]
  induction block generalizing bs with
  | nil =>
    rw [List.map_nil, List.nil_eq, List.map_eq_nil_iff] at h
    subst h
    exact ⟨fun e he => absurd he List.not_mem_nil, rfl⟩
  | cons entry block ih =>
    obtain ⟨b, rest, rfl, hb, hrest⟩ := List.map_eq_cons_iff.mp h.symm
    obtain ⟨hfaults, hnarrow⟩ := ih hrest.symm fun hmem => hpython (List.mem_cons_of_mem _ hmem)
    obtain ⟨hlang, hsetting⟩ := binding?_eq_some hb.symm
    have hnone : fault? uber entry = none := by
      refine Option.eq_none_iff_forall_ne_some.mpr fun f hf => ?_
      obtain ⟨-, hsupports, hmissing | ⟨hpy, hmissing⟩⟩ := (fault?_eq_some hlang).mp hf
      · rw [hsetting] at hmissing
        cases hmissing
      · rw [hpy] at hsupports hlang
        have hname : Language.python.name ∈ Fields.keys (entry :: block) :=
          Language.eq_name_of_ofName? hlang ▸ List.mem_cons_self
        have hparent := hpython hname hsupports
        rw [hmissing] at hparent
        cases hparent
    refine ⟨List.forall_mem_cons.mpr ⟨hnone, hfaults⟩, ?_⟩
    rw [List.filterMap_cons, narrow?_of_binding? hb.symm]
    cases hs : supports uber b.language with
    | true =>
      rw [if_pos rfl, List.filter_cons_of_pos (by exact hs), List.map_cons, hnarrow]
    | false =>
      rw [if_neg Bool.false_ne_true, List.filter_cons_of_neg (by simp [hs]), hnarrow]

/-- A block with a language that is not known fails: at the first such language, unless an entry
before it is at fault. -/
theorem submodule_of_unknown {block : Fields} (h : ∃ e ∈ block, Language.ofName? e.1 = none)
    (modulePrefix : Text) :
    ∃ before name settings after, block = before ++ (name, settings) :: after ∧
      Language.ofName? name = none ∧ (∀ e ∈ before, Language.ofName? e.1 ≠ none) ∧
      ((∀ e ∈ before, fault? uber e = none) ∧
          submodule (uber.map .obj) (some (.obj block)) modulePrefix = .error (.unsupported name) ∨
        ∃ e ∈ before, ∃ l, Language.ofName? e.1 = some l ∧ supports uber l = true ∧
          (setting? l e.2 = none ∨ l = .python ∧ parentModule? uber = none) ∧
          submodule (uber.map .obj) (some (.obj block)) modulePrefix = .error (.incomplete l)) := by
  obtain ⟨e, he, hunknown⟩ := h
  obtain ⟨⟨name, settings⟩, hfind⟩ :
      ∃ e, block.find? (fun e => (Language.ofName? e.1).isNone) = some e :=
    Option.isSome_iff_exists.mp (List.find?_isSome.mpr ⟨e, he, by rw [hunknown]; rfl⟩)
  obtain ⟨hname, before, after, rfl, hbefore⟩ := List.find?_eq_some_iff_append.mp hfind
  have hname : Language.ofName? name = none := Option.isNone_iff_eq_none.mp hname
  have hknown : ∀ e ∈ before, Language.ofName? e.1 ≠ none := fun e he hno => by
    have hsome := hbefore e he
    rw [hno] at hsome
    cases hsome
  have hfault : fault? uber (name, settings) = some (.unsupported name) := by rw [fault?, hname]
  refine ⟨before, name, settings, after, rfl, hname, hknown, ?_⟩
  rw [submodule_eq, List.findSome?_append]
  cases hfirst : before.findSome? (fault? uber) with
  | none =>
    rw [Option.none_or, List.findSome?_cons, hfault]
    exact Or.inl ⟨List.findSome?_eq_none_iff.mp hfirst, rfl⟩
  | some f =>
    obtain ⟨d, hd, hf⟩ := List.exists_of_findSome?_eq_some hfirst
    obtain ⟨l, hl⟩ := Option.ne_none_iff_exists'.mp (hknown d hd)
    obtain ⟨rfl, hsupports, hmissing⟩ := (fault?_eq_some hl).mp hf
    exact Or.inr ⟨d, hd, l, hl, hsupports, hmissing, rfl⟩

/-- An entry of a language that is not supported can be left out. -/
theorem submodule_of_unsupported (hno : supports uber l = false) (before after : Fields)
    (settings : Json) (modulePrefix : Text) :
    submodule (uber.map .obj) (some (.obj (before ++ (l.name, settings) :: after))) modulePrefix =
      submodule (uber.map .obj) (some (.obj (before ++ after))) modulePrefix := by
  have hl : Language.ofName? (l.name, settings).1 = some l := Language.ofName?_name l
  obtain ⟨hfault, hnarrow⟩ := pass_of_unsupported hl hno modulePrefix
  rw [submodule_eq, submodule_eq, List.findSome?_append, List.findSome?_append,
    List.filterMap_append,
    List.filterMap_append, List.findSome?_cons, hfault, List.filterMap_cons, hnarrow]

/-- Bindings that say something are read back. -/
theorem ofTargets_toObject {bs : List Binding} (h : ∀ b ∈ bs, b.value ≠ []) :
    ofTargets (some (toObject bs)) = .ok bs := by
  rw [toObject, ofTargets_eq_ok, List.map_map]
  refine List.map_congr_left fun b hb => ?_
  have hsetting : setting? b.language b.toJson = some b.value := by
    rw [setting?, toJson, Json.field?, Fields.get?, if_pos rfl]
    exact if_neg (h b hb)
  rw [Function.comp_apply, binding?, Language.ofName?_name, Option.bind_some, hsetting]
  rfl

theorem narrowed_value_ne_nil {b : Binding} (h : b.value ≠ []) (uber : Option Fields)
    (modulePrefix : Text) :
    (narrowed uber modulePrefix b).value ≠ [] := by
  rw [narrowed]
  split
  · exact List.append_ne_nil_of_left_ne_nil (List.append_ne_nil_of_right_ne_nil _ (by decide)) _
  · exact h

/-- What narrowing gives says something. -/
theorem value_ne_nil_of_submodule {block : Fields} {bs : List Binding} {modulePrefix : Text}
    (h : submodule (uber.map .obj) (some (.obj block)) modulePrefix = .ok (some bs)) :
    ∀ b ∈ bs, b.value ≠ [] := by
  obtain ⟨-, hbs⟩ := submodule_eq_ok.mp h
  rw [Option.some.injEq] at hbs
  subst hbs
  intro b hb
  obtain ⟨entry, -, hb⟩ := List.mem_filterMap.mp hb
  obtain ⟨l, -, hb⟩ := Option.bind_eq_some_iff.mp hb
  obtain ⟨-, hb⟩ := Option.ite_none_right_eq_some.mp hb
  obtain ⟨strict, hstrict, rfl⟩ := Option.map_eq_some_iff.mp hb
  exact narrowed_value_ne_nil (ne_nil_of_setting? (binding?_eq_some hstrict).2) uber modulePrefix

/-- Narrowing agrees with strict reading.  It gives nothing exactly where a library has no block; of
a block that is read strictly it gives the bindings of supported languages in order, narrowed, if
the uber-package names its Python module where that is needed; a language that is not known makes it
fail, with the first fault; what stands under a language that is not supported makes no difference;
and what it gives is read back strictly. -/
theorem submodule_agrees (uber : Option Fields) (modulePrefix : Text) :
    (∀ library : Option Fields,
      submodule (uber.map .obj) (library.map .obj) modulePrefix = .ok none ↔ library = none) ∧
    (∀ (block : Fields) bs, ofTargets (some (.obj block)) = .ok bs →
      ¬ (Language.python.name ∈ block.keys ∧ supports uber .python = true) ∨
        (parentModule? uber).isSome = true →
      submodule (uber.map .obj) (some (.obj block)) modulePrefix =
        .ok (some ((bs.filter fun b => supports uber b.language).map
          (narrowed uber modulePrefix)))) ∧
    (∀ block : Fields, (∃ e ∈ block, Language.ofName? e.1 = none) →
      ∃ before name settings after, block = before ++ (name, settings) :: after ∧
        Language.ofName? name = none ∧ (∀ e ∈ before, Language.ofName? e.1 ≠ none) ∧
        ((∀ e ∈ before, fault? uber e = none) ∧
            submodule (uber.map .obj) (some (.obj block)) modulePrefix =
              .error (.unsupported name) ∨
          ∃ e ∈ before, ∃ l, Language.ofName? e.1 = some l ∧ supports uber l = true ∧
            (setting? l e.2 = none ∨ l = .python ∧ parentModule? uber = none) ∧
            submodule (uber.map .obj) (some (.obj block)) modulePrefix = .error (.incomplete l))) ∧
    (∀ l, supports uber l = false → ∀ (before after : Fields) settings,
      submodule (uber.map .obj) (some (.obj (before ++ (l.name, settings) :: after))) modulePrefix =
        submodule (uber.map .obj) (some (.obj (before ++ after))) modulePrefix) ∧
    ∀ (block : Fields) bs, submodule (uber.map .obj) (some (.obj block)) modulePrefix =
      .ok (some bs) →
      ofTargets (some (toObject bs)) = .ok bs := by
  refine ⟨fun library => ⟨fun h => ?_, ?_⟩, fun block bs h hpython => ?_,
    fun block h => submodule_of_unknown h modulePrefix,
    fun l hno before after settings => submodule_of_unsupported hno before after
      settings modulePrefix,
    fun block bs h => ofTargets_toObject (value_ne_nil_of_submodule h)⟩
  · cases library with
    | none => rfl
    | some block => cases (submodule_eq_ok.mp h).2
  · rintro rfl
    rfl
  · refine submodule_of_ofTargets h modulePrefix fun hkey hsupports => ?_
    exact hpython.resolve_left fun hno => hno ⟨hkey, hsupports⟩

namespace Sample

/-- An uber-package with bindings to two languages. -/
def bundle : Fields :=
  [("dotnet", .obj [("namespace", .str "Lib")]), ("java", .null),
    ("python", .obj [("module", .str "lib")])]

def library : Fields :=
  [("python", .obj [("module", .str "cdk.s3")]), ("java", .obj [("package", .str "s3")]),
    ("dotnet", .obj [("namespace", .str "S3"), ("packageId", .str "Cdk.S3")])]

/-- A block with a language that nobody knows, and one without its setting before it. -/
def unknown : Fields := [("java", .obj []), ("dotnet", .obj []), ("go", .obj [])]

end Sample

theorem submodule_agrees_sample :
    ofTargets (some (.obj Sample.library)) =
      .ok [⟨.python, "cdk.s3"⟩, ⟨.java, "s3"⟩, ⟨.dotnet, "S3"⟩] ∧
      submodule (some (.obj Sample.bundle)) (some (.obj Sample.library)) "cdk." =
        .ok (some [⟨.python, "lib.s3"⟩, ⟨.dotnet, "S3"⟩]) ∧
      ofTargets (some (toObject [⟨.python, "lib.s3"⟩, ⟨.dotnet, "S3"⟩])) =
        .ok [⟨.python, "lib.s3"⟩, ⟨.dotnet, "S3"⟩] ∧
      ∃ before name settings after, Sample.unknown = before ++ (name, settings) :: after ∧
        Language.ofName? name = none ∧ ∃ e ∈ before, ∃ l, Language.ofName? e.1 = some l ∧
          submodule (some (.obj Sample.bundle)) (some (.obj Sample.unknown)) "cdk." =
            .error (.incomplete l) := by
  obtain ⟨-, hstrict, hunknown, -, hback⟩ := submodule_agrees (some Sample.bundle) "cdk."
  have haccepted : ofTargets (some (.obj Sample.library)) =
      .ok [⟨.python, "cdk.s3"⟩, ⟨.java, "s3"⟩, ⟨.dotnet, "S3"⟩] := rfl
  have hnarrowed := hstrict Sample.library _ haccepted (Or.inr rfl)
  refine ⟨haccepted, hnarrowed, hback Sample.library _ hnarrowed, ?_⟩
  obtain ⟨before, name, settings, after, hsplit, hname, -,
      ⟨-, hfails⟩ | ⟨e, he, l, hl, -, -, hfails⟩⟩ :=
    hunknown Sample.unknown ⟨("go", .obj []), by simp [Sample.unknown], rfl⟩
  · have hfirst : submodule (some (.obj Sample.bundle)) (some (.obj Sample.unknown)) "cdk." =
        .error (.incomplete .dotnet) := rfl
    rw [Option.map_some, hfirst] at hfails
    cases hfails
  · exact ⟨before, name, settings, after, hsplit, hname, e, he, l, hl, hfails⟩

end Binding

end UberPackage
