/-
  How runs end.

  A run of a command ends with its text, with status 1 and a message, or with a failure that is not
  reported (`CommandLine.Ends`).  What is not reported is malformed: bytes that are no text, a text
  that is no document, a value or a name that does not fit; and whatever keeps the file of settings
  from being found and read, a home that is not known among it (`EscapesLoading`, `EscapesCommand`).
  A run ends so where the settings, a manifest or the workspace are malformed
  (`CommandLine.run_ends`).
-/
import UberPackage.CommandLine
import UberPackage.Proofs.Build.Refusal

namespace UberPackage.CommandLine

open Act

/-! ## What the stages fail with -/

/-- What loading the settings can fail with. -/
def IsOfLoading : Failure → Prop
  | .settings _ | .file _ | .undecodable => True
  | _ => False

theorem failsOnly_load (p : Path) (homes : Homes) :
    FailsOnly IsOfLoading (Settings.load p homes) := by
  have hfile : ∀ e, IsOfLoading (.file e) := fun _ => trivial
  have hlocate : FailsOnly IsOfLoading (Settings.locate p homes) := by
    unfold Settings.locate
    refine FailsOnly.bind (failsOnly_orFail fun _ => trivial) fun q => ?_
    refine (failsOnly_ask hfile _).bind fun b => ?_
    dsimp only
    split
    · exact failsOnly_get.bind fun _ => failsOnly_pure _
    · exact failsOnly_get.bind fun _ => failsOnly_pure _
    · exact failsOnly_throw (hfile _)
  unfold Settings.load
  refine hlocate.bind fun file => (failsOnly_ask hfile _).bind fun b => ?_
  split
  · exact (failsOnly_readText hfile trivial _).bind fun _ => failsOnly_orFail fun _ => trivial
  · exact failsOnly_pure _

/-- What a verification can fail with. -/
def IsOfVerification : Failure → Prop
  | .dependency _ | .corrected | .file _ | .librariesMissing _ | .librariesNotDirectory _
  | .document _ | .undecodable | .unencodable | .misfit _ => True
  | _ => False

theorem failsOnly_discovery (root : Path) (scope : Text) :
    FailsOnly IsOfVerification (Discovery.run root scope) := by
  have hfile : ∀ e, IsOfVerification (.file e) := fun _ => trivial
  have hvisit : ∀ p, FailsOnly IsOfVerification (Discovery.visit scope p) := by
    intro p
    refine FailsOnly.bind ((failsOnly_ask hfile _).bind fun b => ?_) fun c =>
      FailsOnly.bind ?_ fun _ => failsOnly_pure _
    · split
      · refine (failsOnly_readDocument hfile trivial (fun _ => trivial) _).bind fun _ => ?_
        exact (failsOnly_orFail fun _ => trivial).bind fun _ => failsOnly_pure _
      · exact failsOnly_pure _
    · cases c with
      | taken l => exact failsOnly_pure _
      | skipped name reason => exact failsOnly_records _
  have hdirectories : FailsOnly IsOfVerification (Discovery.directories root) :=
    (failsOnly_ask hfile _).bind fun _ => failsOnly_filterM fun _ => failsOnly_ask hfile _
  unfold Discovery.run
  refine (failsOnly_records _).bind fun _ => (failsOnly_ask hfile _).bind fun b => ?_
  refine failsOnly_guard trivial ((failsOnly_ask hfile _).bind fun b => failsOnly_guard trivial ?_)
  refine hdirectories.bind fun ps => (failsOnly_mapM fun p _ => hvisit p).bind fun cs => ?_
  exact (failsOnly_records _).bind fun _ => failsOnly_pure _

theorem failsOnly_verify (s : Settings) : FailsOnly IsOfVerification (Build.verify s) := by
  have hfile : ∀ e, IsOfVerification (.file e) := fun _ => trivial
  have hread := failsOnly_readDocument hfile trivial fun _ => trivial
  have hwrite : ∀ p v, FailsOnly IsOfVerification (writeDocument p v) := fun p v =>
    failsOnly_writeText trivial hfile p v.write
  unfold Build.verify
  refine (failsOnly_discovery _ _).bind fun found => (hread _).bind fun manifest =>
    (hread _).bind fun workspace => ?_
  refine FailsOnly.bind ((failsOnly_records _).bind fun _ =>
    failsOnly_orFail fun _ => trivial) fun p => ?_
  have hworkspace :
      FailsOnly IsOfVerification (Build.correctWorkspace s workspace p.workspace) := by
    unfold Build.correctWorkspace
    split
    · exact (failsOnly_orFail fun _ => trivial).bind fun c => (hwrite _ _).bind fun _ =>
        failsOnly_records _
    · exact failsOnly_pure _
  have hmanifest : FailsOnly IsOfVerification (Build.correctManifest s manifest p.manifest) := by
    unfold Build.correctManifest
    split
    · exact (failsOnly_orFail fun _ => trivial).bind fun c => (hwrite _ _).bind fun _ =>
        failsOnly_throw trivial
    · exact failsOnly_pure _
  exact hworkspace.bind fun _ => hmanifest.bind fun _ =>
    (failsOnly_records _).bind fun _ => failsOnly_pure _

/-- What a command can fail with. -/
def IsOfCommand (c : Command) (f : Failure) : Prop :=
  IsOfVerification f ∨ c = .build ∧ Build.IsOfAssembly f

theorem failsOnly_perform (c : Command) (s : Settings) :
    FailsOnly (IsOfCommand c) (perform c s) := by
  have hverify : FailsOnly (IsOfCommand c) (Build.verify s) := fun w f w' h =>
    Or.inl (failsOnly_verify s w f w' h)
  cases c with
  | verify => exact hverify.bind fun _ => failsOnly_pure _
  | build =>
    have hprepare :
        ∀ ls m, FailsOnly (IsOfCommand .build) (Build.prepare s ls m) := fun ls m w f w' h =>
      Or.inr ⟨rfl, Build.failsOnly_prepare s ls m w f w' h⟩
    refine FailsOnly.bind (hverify.bind fun x => (hprepare _ _).bind fun _ => failsOnly_pure _)
      fun built => ?_
    exact failsOnly_get.bind fun _ => failsOnly_pure _

/-! ## What is reported -/

/-- What is not reported while the settings are loaded: a home that is not known, a file that cannot
be read, bytes that are no text, a value or a path that does not fit. -/
inductive EscapesLoading : Failure → Prop where
  | homeless : EscapesLoading (.settings .homeless)
  | file (e : FileFault) : EscapesLoading (.file e)
  | undecodable : EscapesLoading .undecodable
  | misfit (m : Misfit) : EscapesLoading (.settings (.misfit m))
  | path (e : FileFault) : EscapesLoading (.settings (.file e))

/-- What is not reported of a command: bytes that are no text, a text that is no document or has no
bytes, a value or a name that does not fit. -/
inductive EscapesCommand (c : Command) : Failure → Prop where
  | undecodable : EscapesCommand c .undecodable
  | unencodable : EscapesCommand c .unencodable
  | document (f : Json.Fault) : EscapesCommand c (.document f)
  | misfit (m : Misfit) : EscapesCommand c (.misfit m)
  | plan (m : Misfit) : EscapesCommand c (.dependency (.misfit m))
  | name {e : FileFault} (h : Failure.isRefusal e = false) : EscapesCommand c (.file e)
  | binding (h : c = .build) (m : Misfit) : EscapesCommand c (.binding (.misfit m))
  | source (h : c = .build) : EscapesCommand c (.redirection .undecodable)
  | specifier (h : c = .build) : EscapesCommand c (.redirection .unencodable)

/-- Of what a command can fail with, just that is not reported. -/
theorem escapesCommand_iff {c : Command} {f : Failure} (h : IsOfCommand c f) :
    EscapesCommand c f ↔ f.isReported = false := by
  refine ⟨fun he => ?_, fun hf => ?_⟩
  · cases he with
    | name he => exact he
    | _ => rfl
  · have hbuild : ¬ IsOfVerification f → c = .build := fun hv => (h.resolve_left hv).1
    cases f with
    | settings g => exact absurd h (not_or.mpr ⟨id, fun h => h.2⟩)
    | dependency g =>
      cases g with
      | conflict name existing requested => cases hf
      | misfit m => exact .plan m
    | binding g =>
      cases g with
      | unsupported name => cases hf
      | incomplete l => cases hf
      | misfit m => exact .binding (hbuild id) m
    | redirection g =>
      cases g with
      | damaged file => cases hf
      | unencodable => exact .specifier (hbuild id)
      | undecodable => exact .source (hbuild id)
    | file e => exact .name hf
    | document g => exact .document g
    | undecodable => exact .undecodable
    | unencodable => exact .unencodable
    | misfit m => exact .misfit m
    | corrected => cases hf
    | librariesMissing path => cases hf
    | librariesNotDirectory path => cases hf

/-! ## Ends -/

/-- Where a run looks for its settings. -/
def Options.place (o : Options) : Path := Path.ofText (o.config.getD o.path)

/-- How a run ends. -/
inductive Ends (o : Options) (homes : Homes) (w : World) : Ending → Prop where
  | verified {s : Settings} {v v' : World} {x : Build.Verified} (hc : o.command = .verify)
      (loads : Does (Settings.load o.place homes) w s v) (verifies : Does (Build.verify s) v x v') :
      Ends o homes w (.done ("Dependencies are consistent for " ++ Text.ofNat x.libraries.length ++
        " libraries\n"))
  | built {s : Settings} {v v' : World} {x : Build.Built} (hc : o.command = .build)
      (loads : Does (Settings.load o.place homes) w s v) (builds : Does (Build.run s) v x v') :
      Ends o homes w (.done ("Assembled " ++ Text.ofNat x.libraries.length ++ " libraries into " ++
        shown v'.disk.cwd x.outputRoot ++ "\n"))
  | unsettled {f : SettingsFault} {v : World}
      (fails : Fails (Settings.load o.place homes) w (.settings f) v)
      (reported : ¬ EscapesLoading (.settings f)) :
      Ends o homes w (.exit 1 [] (f.message ++ "\n"))
  | corrected {s : Settings} {v v' : World} (loads : Does (Settings.load o.place homes) w s v)
      (fails : Fails (perform o.command s) v .corrected v') :
      Ends o homes w (.exit 1 [] (Failure.corrected.message ++ "\n"))
  | failed {s : Settings} {v v' : World} {f : Failure}
      (loads : Does (Settings.load o.place homes) w s v)
      (fails : Fails (perform o.command s) v f v') (hf : f ≠ .corrected)
      (reported : ¬ EscapesCommand o.command f) :
      Ends o homes w
        (.exit 1 [] ("ubergen " ++ o.command.name ++ " failed: " ++ (f.message ++ "\n")))
  | unread {f : Failure} {v : World} (fails : Fails (Settings.load o.place homes) w f v)
      (escapes : EscapesLoading f) : Ends o homes w (.escape f)
  | escaped {s : Settings} {v v' : World} {f : Failure}
      (loads : Does (Settings.load o.place homes) w s v)
      (fails : Fails (perform o.command s) v f v') (escapes : EscapesCommand o.command f) :
      Ends o homes w (.escape f)

/-- The run has succeeded, or has failed and says so. -/
def Ending.IsReport : Ending → Prop
  | .done output => output ≠ []
  | .exit status _ message => status = 1 ∧ message ≠ []
  | .escape _ => False

section Run

variable {args : List Text} {o : Options} {homes : Homes} {w w' v v' : World} {s : Settings}
  {f : Failure} {e : Ending}

theorem does_outcome {α : Type} {a : Act α} {r : Except Failure α} :
    Does (outcome a) w r w' ↔ a.runIn w = (r, w') := by
  show (Except.ok (a.runIn w).1, (a.runIn w).2) = ((Except.ok r, w') : Except Failure _ × World) ↔ _
  rw [Prod.mk.injEq, Except.ok.injEq, Prod.ext_iff]

theorem does_attempt_of_fails (h : Fails (Settings.load o.place homes) w f v) :
    Does (attempt o homes) w (endWithoutSettings f) v :=
  does_bind.mpr ⟨_, _, does_outcome.mpr h, does_pure.mpr ⟨rfl, rfl⟩⟩

theorem does_attempt_of_does (h : Does (Settings.load o.place homes) w s v)
    {r : Except Failure Text} (hr : (perform o.command s).runIn v = (r, v')) :
    ∃ w', Does (attempt o homes) w (endOfCommand o.command r).1 w' :=
  ⟨{ v' with journal := v'.journal ++ (endOfCommand o.command r).2 },
    does_bind.mpr ⟨_, _, does_outcome.mpr h, does_bind.mpr ⟨_, _, does_outcome.mpr hr,
      does_bind.mpr ⟨(), _, does_records.mpr rfl, does_pure.mpr ⟨rfl, rfl⟩⟩⟩⟩⟩

/-- Without a file for the journal, a run ends as its attempt. -/
theorem ending_of_attempt (hparse : Options.parse args = .ok o) (hlog : o.logFile = none)
    (h : Does (attempt o homes) w e w') : (Session.run args w homes).ending = e := by
  have hfile : o.setup.logFile = none := by
    rw [Options.setup, hlog]
    rfl
  have hrun : (pure () >>= fun _ : Unit => attempt o homes : Act Ending).runIn w = (.ok e, w') := h
  rw [Session.run, hparse]
  dsimp only [Session.perform]
  rw [hfile]
  dsimp only
  rw [hrun]

/-- A run ends as its command does once the settings are loaded. -/
theorem ending_of_perform (hparse : Options.parse args = .ok o) (hlog : o.logFile = none)
    (h : Does (Settings.load o.place homes) w s v) {r : Except Failure Text}
    (hr : (perform o.command s).runIn v = (r, v')) :
    (Session.run args w homes).ending = (endOfCommand o.command r).1 :=
  (does_attempt_of_does h hr).elim fun _ hw => ending_of_attempt hparse hlog hw

theorem endOfCommand_escapes {c : Command} (h : EscapesCommand c f) :
    (endOfCommand c (.error f)).1 = .escape f := by
  cases h with
  | @name e he =>
    show (if Failure.isRefusal e then _ else (Ending.escape (.file e), ([] : List Record))).1 = _
    rw [he, if_neg Bool.false_ne_true]
  | _ => rfl

theorem endOfCommand_failed {c : Command} (hc : IsOfCommand c f) (h : ¬ EscapesCommand c f)
    (hf : f ≠ .corrected) :
    (endOfCommand c (.error f)).1 = .exit 1 []
      ("ubergen " ++ c.name ++ " failed: " ++ (f.message ++ "\n")) := by
  have hreported : f.isReported = true :=
    Bool.not_eq_false _ ▸ fun hr => h ((escapesCommand_iff hc).mpr hr)
  unfold endOfCommand
  split
  · next he => cases he
  · next he => exact absurd (Except.error.inj he) hf
  · next g _ he =>
    obtain rfl := Except.error.inj he
    rw [if_pos hreported]
    rfl

theorem endWithoutSettings_escapes (h : EscapesLoading f) : endWithoutSettings f = .escape f := by
  cases h <;> rfl

theorem endWithoutSettings_unsettled {g : SettingsFault} (h : ¬ EscapesLoading (.settings g)) :
    endWithoutSettings (.settings g) = .exit 1 [] (g.message ++ "\n") := by
  cases g with
  | file e => exact absurd (.path e) h
  | misfit m => exact absurd (.misfit m) h
  | homeless => exact absurd .homeless h
  | _ => rfl

theorem does_perform_verify {x : Build.Verified} (h : Does (Build.verify s) v x v') :
    Does (perform .verify s) v
      ("Dependencies are consistent for " ++ Text.ofNat x.libraries.length ++ " libraries\n") v' :=
  does_bind.mpr ⟨x, v', h, does_pure.mpr ⟨rfl, rfl⟩⟩

theorem does_perform_build {x : Build.Built} (h : Does (Build.run s) v x v') :
    Does (perform .build s) v ("Assembled " ++ Text.ofNat x.libraries.length ++
      " libraries into " ++ shown v'.disk.cwd x.outputRoot ++ "\n") v' :=
  does_bind.mpr ⟨x, v', h, does_bind.mpr ⟨v', v', does_get.mpr ⟨rfl, rfl⟩,
    does_pure.mpr ⟨rfl, rfl⟩⟩⟩

/-- The end that is told of is the one there is. -/
theorem Ends.ending (hparse : Options.parse args = .ok o) (hlog : o.logFile = none)
    (h : Ends o homes w e) : (Session.run args w homes).ending = e := by
  cases h with
  | @verified s v v' x hc loads verifies =>
    exact ending_of_perform hparse hlog loads (hc ▸ does_perform_verify verifies)
  | @built s v v' x hc loads builds =>
    exact ending_of_perform hparse hlog loads (hc ▸ does_perform_build builds)
  | @unsettled g v fails reported =>
    rw [ending_of_attempt hparse hlog (does_attempt_of_fails fails),
      endWithoutSettings_unsettled reported]
  | @corrected s v v' loads fails => exact ending_of_perform hparse hlog loads fails
  | @failed s v v' f loads fails hf reported =>
    rw [ending_of_perform hparse hlog loads fails,
      endOfCommand_failed (failsOnly_perform _ _ _ _ _ fails) reported hf]
  | @unread f v fails escapes =>
    rw [ending_of_attempt hparse hlog (does_attempt_of_fails fails),
      endWithoutSettings_escapes escapes]
  | @escaped s v v' f loads fails escapes =>
    rw [ending_of_perform hparse hlog loads fails, endOfCommand_escapes escapes]

/-- There is an end. -/
theorem exists_ends (o : Options) (homes : Homes) (w : World) : ∃ e, Ends o homes w e := by
  rcases does_or_fails (Settings.load o.place homes) w with ⟨s, v, hload⟩ | ⟨f, v, hload⟩
  · rcases does_or_fails (perform o.command s) v with ⟨line, v', hperform⟩ | ⟨f, v', hperform⟩
    · cases hc : o.command with
      | build =>
        rw [hc] at hperform
        obtain ⟨x, u, hx, h⟩ := does_bind.mp hperform
        obtain ⟨u', u'', hget, h⟩ := does_bind.mp h
        exact ⟨_, .built hc hload hx⟩
      | verify =>
        rw [hc] at hperform
        obtain ⟨x, u, hx, -⟩ := does_bind.mp hperform
        exact ⟨_, .verified hc hload hx⟩
    · by_cases hescapes : EscapesCommand o.command f
      · exact ⟨_, .escaped hload hperform hescapes⟩
      · by_cases hf : f = .corrected
        · exact ⟨_, .corrected hload (hf ▸ hperform)⟩
        · exact ⟨_, .failed hload hperform hf hescapes⟩
  · by_cases hescapes : EscapesLoading f
    · exact ⟨_, .unread hload hescapes⟩
    · have hof := failsOnly_load _ _ _ _ _ hload
      cases f with
      | settings g => exact ⟨_, .unsettled hload hescapes⟩
      | file e => exact absurd (.file e) hescapes
      | undecodable => exact absurd .undecodable hescapes
      | _ => exact hof.elim

/-! ## Malformed files -/

/-- What a verification meets, a run ends with. -/
theorem ending_of_breaks (hparse : Options.parse args = .ok o) (hlog : o.logFile = none)
    (h : Does (Settings.load o.place homes) w s v) (hb : Breaks (Build.verify s) v.disk f)
    (hf : EscapesCommand o.command f) : (Session.run args w homes).ending = .escape f := by
  have hperform : Breaks (perform o.command s) v.disk f := by
    cases o.command with
    | build => exact (hb.bind _).bind _
    | verify => exact hb.bind _
  obtain ⟨v', hv'⟩ := hperform v.journal
  exact Ends.ending hparse hlog (.escaped h hv' hf)

/-- Looking for the settings changes nothing. -/
theorem locate_leaves {p file : Path} (h : Does (Settings.locate p homes) w file v) : v = w := by
  have hget : ∀ q : Path, Does (do return (← get).disk.resolve q) w file v → v = w := fun q h => by
    obtain ⟨u, u', hu, h⟩ := does_bind.mp h
    rw [← (does_pure.mp h).2, ← (does_get.mp hu).2]
  unfold Settings.locate at h
  obtain ⟨q, u, hq, h⟩ := does_bind.mp h
  obtain ⟨-, rfl⟩ := does_orFail.mp hq
  obtain ⟨b, u, hb, h⟩ := does_bind.mp h
  obtain ⟨-, rfl⟩ := does_ask.mp hb
  dsimp only at h
  split at h
  · exact hget _ h
  · exact hget _ h
  · exact absurd h does_throw

/-- Loading the settings changes nothing. -/
theorem load_leaves {p : Path} (h : Does (Settings.load p homes) w s v) : v = w := by
  unfold Settings.load at h
  obtain ⟨file, u, hfile, hasked⟩ := does_bind.mp h
  obtain rfl := locate_leaves hfile
  obtain ⟨b, u', hb, hread⟩ := does_bind.mp hasked
  obtain ⟨-, rfl⟩ := does_ask.mp hb
  cases b with
  | false => exact (does_pure.mp hread).2.symm
  | true =>
    obtain ⟨t, u₀, ht, hvalue⟩ := does_bind.mp hread
    unfold readText at ht
    obtain ⟨bytes, u₁, hbytes, ht⟩ := does_bind.mp ht
    obtain ⟨-, rfl⟩ := does_ask.mp hbytes
    obtain ⟨cs, u₂, hcs, ht⟩ := does_bind.mp ht
    obtain ⟨-, rfl⟩ := does_decode.mp hcs
    rw [← (does_orFail.mp hvalue).2, ← (does_pure.mp ht).2]

/-- A file of settings that cannot be read ends a run. -/
theorem ending_of_settings (hparse : Options.parse args = .ok o)
    (hlog : o.logFile = none) {file : Path} (h : Does (Settings.locate o.place homes) w file v)
    {e : Entry} (hstat : w.disk.stat file = .ok e) (hb : Breaks (readText file) w.disk f)
    (hf : EscapesLoading f) : (Session.run args w homes).ending = .escape f := by
  obtain rfl := locate_leaves h
  have hload : ∃ v', Fails (Settings.load o.place homes) v f v' := by
    unfold Settings.load
    refine h.fails_bind ((gives_ask (Disk.exists?_of_stat hstat)).breaks ?_)
    rw [if_pos rfl]
    exact hb.bind _
  obtain ⟨v', hv'⟩ := hload
  exact Ends.ending hparse hlog (.unread hv' hf)

theorem Ends.isReport (h : Ends o homes w e) : e.IsReport ∨ ∃ f, e = .escape f := by
  have hmessage : ∀ t : Text, t ++ ("\n" : Text) ≠ [] := fun t =>
    List.append_ne_nil_of_right_ne_nil t (by decide)
  cases h with
  | verified => exact Or.inl (List.append_ne_nil_of_right_ne_nil _ (by decide))
  | built => exact Or.inl (hmessage _)
  | unsettled => exact Or.inl ⟨rfl, hmessage _⟩
  | corrected => exact Or.inl ⟨rfl, hmessage _⟩
  | failed => exact Or.inl ⟨rfl, List.append_ne_nil_of_right_ne_nil _ (hmessage _)⟩
  | @unread f => exact Or.inr ⟨f, rfl⟩
  | @escaped _ _ _ f => exact Or.inr ⟨f, rfl⟩

/-- Without a known home for the path that is asked for, a run ends. -/
theorem ending_of_expand (hparse : Options.parse args = .ok o) (hlog : o.logFile = none)
    {e : SettingsFault} (h : o.place.expand homes = .error e) :
    (Session.run args w homes).ending = .escape (.settings e) := by
  have hload : Fails (Settings.load o.place homes) w (.settings e) w := by
    unfold Settings.load Settings.locate
    exact fails_bind.mpr (Or.inl (fails_bind.mpr (Or.inl (fails_orFail.mpr ⟨⟨e, h, rfl⟩, rfl⟩))))
  refine Ends.ending hparse hlog (.unread hload ?_)
  rcases Path.expand_error h with rfl | ⟨f, rfl⟩
  · exact .homeless
  · exact .path f

/-- **How runs end.** Without a file for the journal, a run ends in just one of the ways told of by
`Ends`: it reports, or a failure escapes that a home which is not known, malformed input or an
unreadable file of settings has caused.  And an unknown home, a file of settings that is a directory
or no text, the manifest of a library, that of the uber-package and the workspace each make the run
end so. -/
theorem run_ends (hparse : Options.parse args = .ok o) (hlog : o.logFile = none) (homes : Homes)
    (w : World) :
    (∀ e, (Session.run args w homes).ending = e ↔ Ends o homes w e) ∧
    ((Session.run args w homes).ending.IsReport ∨
      ∃ f, (Session.run args w homes).ending = .escape f) ∧
    (∀ user rest, o.place = ⟨.none, (.char '~' :: user) :: rest⟩ → Homes.nameFault? user = none →
      homes.find? user = none →
      (Session.run args w homes).ending = .escape (.settings .homeless)) ∧
    (∀ file v, Does (Settings.locate o.place homes) w file v →
      (w.disk.stat file = .ok .dir →
        (Session.run args w homes).ending = .escape (.file (.refused .isDirectory file.text))) ∧
      ∀ bytes, w.disk.read file = .ok bytes → Utf8.decode? bytes = none →
        (Session.run args w homes).ending = .escape .undecodable) ∧
    ∀ s v, Does (Settings.load o.place homes) w s v →
      (∀ f, Discovery.Meets w.disk s.librariesRoot s.scope f →
        (Session.run args w homes).ending = .escape f) ∧
      ∀ found f, Discovery.Finds w.disk s.librariesRoot s.scope found →
        (Garbled w.disk s.manifestPath f ∨
          (∃ manifest, Holds w.disk s.manifestPath manifest) ∧ Garbled w.disk s.workspacePath f) →
        (Session.run args w homes).ending = .escape f := by
  obtain ⟨e, he⟩ := exists_ends o homes w
  have hend := he.ending hparse hlog
  have hgarbled : ∀ {d p f}, Garbled d p f → EscapesCommand o.command f := fun h => by
    cases h with
    | bytes => exact .undecodable
    | text => exact .document _
  refine ⟨fun e' => ⟨fun h => ?_, fun h => h.ending hparse hlog⟩, ?_,
    fun user rest hplace hname hhome => ?_,
    fun file v hfile => ⟨fun hdir => ?_, fun bytes hread hbytes => ?_⟩,
    fun s v hload => ⟨fun f hmeets => ?_, fun found f hfinds hf => ?_⟩⟩
  · exact h ▸ hend ▸ he
  · exact hend ▸ he.isReport
  · exact ending_of_expand hparse hlog (hplace ▸ Path.expand_homeless hname hhome)
  · have hread : w.disk.read file = .error (.refused .isDirectory file.text) := by
      rw [Disk.read, hdir]
      rfl
    exact ending_of_settings hparse hlog hfile hdir ((breaks_ask hread).bind _) (.file _)
  · exact ending_of_settings hparse hlog hfile (Disk.stat_of_read hread)
      (breaks_readText hread hbytes) .undecodable
  · obtain rfl := load_leaves hload
    obtain ⟨names, such, before, directory, after, cs, -, -, -, -, hf⟩ := hmeets.garbled
    exact ending_of_breaks hparse hlog hload (hmeets.breaks.bind _) (hgarbled hf)
  · obtain rfl := load_leaves hload
    have hb : Breaks (Build.verify s) v.disk f := by
      unfold Build.verify
      refine (Discovery.gives_run hfinds).breaks ?_
      rcases hf with hf | ⟨⟨manifest, hmanifest⟩, hf⟩
      · exact hf.breaks.bind _
      · exact (gives_readDocument hmanifest).breaks (hf.breaks.bind _)
    exact ending_of_breaks hparse hlog hload hb (hf.elim hgarbled fun h => hgarbled h.2)

end Run

namespace Sample

/-! A file of settings that is no text, a library whose manifest is cut off, and a user without a
known home. -/

def args : List Text := ["verify", "/u"]

def options : Options := { command := .verify, path := "/u" }

def unsettled : World where
  disk := ⟨[(["u"], .dir), (["u", ".ubergen.yml"], .file [0xFF])], [], "t"⟩

def cut : World where
  disk :=
    ⟨[(["u"], .dir), (["packages"], .dir), (["packages", "@aws-cdk"], .dir),
      (["packages", "@aws-cdk", "a"], .dir),
      (["packages", "@aws-cdk", "a", "package.json"], .file [0x7B])], [], "t"⟩

def homes : Homes where
  environment := some "/home/ann"
  users := [("ann", "/home/ann/")]

def foreign : List Text := ["verify", "~eve/u"]

theorem cut_loads :
    Does (Settings.load options.place) cut (Settings.defaults ⟨.slash, ["u"]⟩) cut := rfl

theorem cut_meets :
    ∃ f, Discovery.Meets cut.disk ⟨.slash, ["packages", "@aws-cdk"]⟩ "@aws-cdk/" (.document f) := by
  have hlist : cut.disk.list ⟨.slash, ["packages", "@aws-cdk"]⟩ = .ok ["a"] :=
    congrArg Except.ok (Text.sort_of_sorted (List.pairwise_singleton _ _))
  refine ⟨_, rfl, rfl, ["a"], fun _ => true, [], _, [], [], hlist,
    fun p hp => ?_, rfl, .nil, .text rfl rfl rfl⟩
  rw [List.mem_singleton.mp hp]
  rfl

end Sample

theorem run_ends_sample : Options.parse Sample.args = .ok Sample.options ∧
    Sample.options.logFile = none ∧
    (Session.run Sample.args Sample.unsettled).ending = .escape .undecodable ∧
    (∃ f, (Session.run Sample.args Sample.cut).ending = .escape (.document f)) ∧
    (Session.run Sample.foreign Sample.cut Sample.homes).ending =
      .escape (.settings .homeless) := by
  have hparse : Options.parse Sample.args = .ok Sample.options := rfl
  refine ⟨hparse, rfl, ?_, ?_, ?_⟩
  · exact ((run_ends hparse rfl {} Sample.unsettled).2.2.2.1 _ _ rfl).2 _ rfl (by decide)
  · obtain ⟨f, hf⟩ := Sample.cut_meets
    exact ⟨f, ((run_ends hparse rfl {} Sample.cut).2.2.2.2 _ _ Sample.cut_loads).1 _ hf⟩
  · have hforeign : Options.parse Sample.foreign = .ok { Sample.options with path := "~eve/u" } :=
      rfl
    exact (run_ends hforeign rfl Sample.homes Sample.cut).2.2.1 "eve" ["u"] rfl
      (by decide) (by decide)

/-- A run with a file of settings that is no text does not report. -/
theorem run_escapes : ¬ ∀ args o homes w, Options.parse args = .ok o → o.logFile = none →
    (Session.run args w homes).ending.IsReport := fun h => by
  have hend : (Session.run Sample.args Sample.unsettled).ending = .escape .undecodable := rfl
  have hreport := h Sample.args Sample.options {} Sample.unsettled rfl rfl
  rw [hend] at hreport
  exact hreport

end UberPackage.CommandLine
